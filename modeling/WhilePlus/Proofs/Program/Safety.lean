import WhilePlus.Program
import WhilePlus.Proofs.Document.WellFormed
import WhilePlus.Proofs.Run.Safety

namespace WhilePlus

namespace Store

private theorem Full.setAll {s : Store} (hs : s.Full) {bindings : List (String × Cell)}
    (h : ∀ b ∈ bindings, ∃ v : Value, b.2 = some v) :
    (bindings.foldl (fun s b => s.set b.1 b.2) s).Full := by
  induction bindings generalizing s with
  | nil => exact hs
  | cons b rest ih =>
    obtain ⟨name, cell⟩ := b
    obtain ⟨v, hv⟩ := h _ List.mem_cons_self
    cases hv
    exact ih (hs.set name v) fun b hb => h b (List.mem_cons_of_mem _ hb)

/-- A store of bindings that all hold values is full. -/
theorem full_ofList {bindings : List (String × Cell)}
    (h : ∀ b ∈ bindings, ∃ v : Value, b.2 = some v) : (ofList bindings).Full :=
  full_empty.setAll h

end Store

/-- Only values are read for bindings. -/
theorem decodeBindings_values {fields : List (String × Document)} {bindings : List (String × Cell)}
    (h : decodeBindings fields = .ok bindings) : ∀ b ∈ bindings, ∃ v : Value, b.2 = some v := by
  induction fields generalizing bindings with
  | nil =>
    cases h
    simp
  | cons field rest ih =>
    obtain ⟨v, _, h⟩ := bind_eq_ok_iff.mp h
    obtain ⟨more, hmore, h⟩ := bind_eq_ok_iff.mp h
    cases h
    intro b hb
    rcases List.mem_cons.mp hb with rfl | hb
    · exact ⟨v, rfl⟩
    · exact ih hmore b hb

private theorem Store.ofDocument_full {d : Document} {s : Store} (h : Store.ofDocument d = .ok s) :
    s.Full := by
  unfold Store.ofDocument at h
  split at h
  · cases h
    exact Store.full_empty
  · obtain ⟨bindings, hbindings, h⟩ := bind_eq_ok_iff.mp h
    cases h
    exact Store.full_ofList (decodeBindings_values hbindings)
  · cases h

private theorem Stmt.ofDocument_wellFormed {d : Document} {s : Stmt} (h : Stmt.ofDocument d = .ok s) :
    s.WellFormed := by
  unfold Stmt.ofDocument at h
  split at h
  · next hdecode =>
    cases h
    exact Document.decodeStmt_wellFormed hdecode
  · cases h

/-- Every accepted program is a whole tree on a full store, whether the document
    gives the store or only the statement. -/
theorem Program.ofDocument_wellFormed {d : Document} {p : Program}
    (h : Program.ofDocument d = .ok p) : p.body.WellFormed ∧ p.store.Full := by
  unfold Program.ofDocument at h
  split at h
  · unfold Program.ofFields at h
    split at h
    · obtain ⟨body, hbody, h⟩ := bind_eq_ok_iff.mp h
      cases h
      exact ⟨Stmt.ofDocument_wellFormed hbody, Store.full_empty⟩
    · split at h
      · cases h
      · obtain ⟨store, hstore, h⟩ := bind_eq_ok_iff.mp h
        obtain ⟨body, hbody, h⟩ := bind_eq_ok_iff.mp h
        cases h
        exact ⟨Stmt.ofDocument_wellFormed hbody, Store.ofDocument_full hstore⟩
  · cases h

/-- No run of a program goes wrong, whatever its limit and whenever it is
    canceled. -/
structure Program.Safe (p : Program) : Prop where
  body : p.body.WellFormed
  store : p.store.Full
  /-- Under any settings, only these make a run fail. -/
  failure : ∀ (cfg : Settings) (r : Result), run? cfg p.store p.body = some r →
    ∀ failure, r.failure = some failure → failure.OfSettings cfg
  /-- Without a limit and without cancellation no run fails. -/
  unlimited : ∀ (runId : String) (r : Result), run? { runId } p.store p.body = some r →
    r.failure = none
  /-- Also a run that never ends passes through full stores only. -/
  visited : ∀ (cfg : Settings) (st : State), Visits cfg p.store p.body st → st.store.Full
  result : ∀ (cfg : Settings) (r : Result), run? cfg p.store p.body = some r → r.store.Full
  /-- A value is reported exactly if raising has escaped the statement. -/
  uncaught : ∀ (cfg : Settings) (r : Result), run? cfg p.store p.body = some r →
    (r.exception.isSome ↔ ∃ value final,
      exec cfg (.stmt p.body) (.initial p.store p.body) = some (.error (.raised value), final))

/-- Programs that come from a document, with or without a store, cannot go
    wrong. -/
theorem Program.safe_of_ofDocument {d : Document} {p : Program} (h : Program.ofDocument d = .ok p) :
    p.Safe := by
  obtain ⟨hbody, hfull⟩ := Program.ofDocument_wellFormed h
  refine ⟨hbody, hfull, ?_, ?_, ?_, ?_, ?_⟩
  · intro cfg r hrun failure hfailed
    exact run?_failure_ofSettings hrun hbody hfull hfailed
  · intro runId r hrun
    refine Option.eq_none_iff_forall_ne_some.mpr fun failure hfailed => ?_
    cases run?_failure_ofSettings hrun hbody hfull hfailed with
    | stepLimit hlimit => cases hlimit
    | canceled hcancel => simp at hcancel
  · intro cfg st hvisits
    exact hvisits.full hbody hfull
  · intro cfg r hrun
    exact run?_store_full hrun hbody hfull
  · intro cfg r hrun
    exact run?_exception_isSome_iff hrun hbody hfull

/-- A document with a store: as long as a number is positive, it is divided by
    itself less one, under a handler, and counted down. -/
def Document.guardedDivision : Document :=
  let n := .record [("type", .text "Var"), ("name", .text "n")]
  let one := .record [("type", .text "Val"), ("value", .record [("int", .int 1)])]
  let less := .record [("type", .text "Op"), ("operator", .text "-"), ("left", n), ("right", one)]
  .record
    [("store", .record [("n", .record [("int", .int 2)])]),
      ("program", .record
        [("type", .text "While"),
          ("condition", .record
            [("type", .text "Op"), ("operator", .text ">"), ("left", n),
              ("right", .record [("type", .text "IntLiteral"), ("value", .int 0)])]),
          ("body", .record
            [("type", .text "Sequence"), ("statements", .list
              [.record
                [("type", .text "Try"), ("binding", .text "e"),
                  ("body", .record
                    [("type", .text "Assign"), ("name", .text "q"),
                      ("value", .record
                        [("type", .text "Op"), ("operator", .text "/"), ("left", n),
                          ("right", less)])])],
                .record [("type", .text "Assign"), ("name", .text "n"), ("value", less)]])])])]

/-- A loop that divides by less and less, down to zero, is read as a safe
    program. -/
theorem Program.safe_guardedDivision :
    ∃ p, Program.ofDocument .guardedDivision = .ok p ∧ p.Safe := by
  have haccepted : (Program.ofDocument .guardedDivision).isOk = true := by decide +kernel
  cases hp : Program.ofDocument .guardedDivision with
  | error e =>
    rw [hp] at haccepted
    cases haccepted
  | ok p => exact ⟨p, rfl, Program.safe_of_ofDocument hp⟩

end WhilePlus
