import WhilePlus.Proofs.Yaml.Resolve
import WhilePlus.Yaml.Typed

namespace WhilePlus.Yaml

/-- If a reading ends without a problem, there was none before, and its result
    satisfies `P`. -/
def Ensures {α : Type} (sheet : Sheet) (x : Reading α) (P : α → Prop) : Prop :=
  ∀ t a t', x sheet t = .ok (a, t') → t'.problems = [] → t.problems = [] ∧ P a

section Rules

variable {α β : Type} {sheet : Sheet} {x : Reading α} {P Q : α → Prop}

/-- What a reading ensures holds of its result, if no problem was noted. -/
theorem Ensures.of_run (h : Ensures sheet x P) {a : α} (hrun : x.run sheet = .ok a) : P a := by
  unfold Reading.run at hrun
  split at hrun
  · cases hrun
  · next b t hok =>
    split at hrun
    · next hempty =>
      obtain rfl := Except.ok.inj hrun
      exact (h {} b t hok (List.isEmpty_iff.mp hempty)).2
    · cases hrun

/-- What is ensured may be weakened. -/
theorem Ensures.imp (h : Ensures sheet x P) (hPQ : ∀ a, P a → Q a) : Ensures sheet x Q :=
  fun t a t' hok hclean => (h t a t' hok hclean).imp_right (hPQ a)

/-- A result without any reading notes no problem. -/
theorem ensures_pure {a : α} (h : P a) : Ensures sheet (pure a) P := by
  intro t b t' hok hclean
  obtain ⟨rfl, rfl⟩ := Prod.mk.inj (Except.ok.inj hok)
  exact ⟨hclean, h⟩

/-- A reading that ends without a result ensures anything. -/
theorem ensures_throw (e : Error) : Ensures sheet (throw e : Reading α) P := by
  intro t a t' hok
  cases hok

/-- The document that is asked for is the one that is read. -/
theorem ensures_read_bind {f : Sheet → Reading α} (h : Ensures sheet (f sheet) P) :
    Ensures sheet (read >>= f) P := h

private theorem ensures_get : Ensures sheet get fun _ => True := by
  intro t a t' hok hclean
  obtain ⟨rfl, rfl⟩ := Prod.mk.inj (Except.ok.inj hok)
  exact ⟨hclean, trivial⟩

/-- A change of what is kept track of must not take problems away, since then a
    reading without problems would say nothing of what was read before. -/
theorem ensures_modify {f : Tally → Tally} {R : Unit → Prop}
    (hf : ∀ t, (f t).problems = [] → t.problems = [] ∧ R ()) : Ensures sheet (modify f) R := by
  intro t a t' hok hclean
  obtain ⟨rfl, rfl⟩ := Prod.mk.inj (Except.ok.inj hok)
  exact hf t hclean

/-- The result of the first part can be used for what the second one ensures. No
    problem in the whole means no problem in either part. -/
theorem Ensures.bind {f : α → Reading β} {R : β → Prop} (hx : Ensures sheet x P)
    (hf : ∀ a, Ensures sheet (f a) fun b => P a → R b) : Ensures sheet (x >>= f) R := by
  intro t b t' hok hclean
  change (x sheet t >>= fun r => f r.1 sheet r.2) = .ok (b, t') at hok
  cases hx' : x sheet t with
  | error e =>
    rw [hx'] at hok
    cases hok
  | ok r =>
    obtain ⟨a, t₁⟩ := r
    rw [hx'] at hok
    obtain ⟨hclean₁, hb⟩ := hf a t₁ b t' hok hclean
    obtain ⟨hclean₀, ha⟩ := hx t a t₁ hx' hclean₁
    exact ⟨hclean₀, hb ha⟩

/-- Every part of a reading that only adds problems does so. -/
theorem Ensures.bind_true {f : α → Reading β} (hx : Ensures sheet x P)
    (hf : ∀ a, Ensures sheet (f a) fun _ => True) : Ensures sheet (x >>= f) fun _ => True :=
  hx.bind fun a => (hf a).imp fun _ _ _ => trivial

/-- What is ensured of a result is ensured of what it is turned into. -/
theorem Ensures.map {f : α → β} {R : β → Prop} (hx : Ensures sheet x P) (hf : ∀ a, P a → R (f a)) :
    Ensures sheet (f <$> x) R := by
  rw [map_eq_pure_bind]
  exact hx.bind fun a => ensures_pure (hf a)

/-- Two things that are ensured are ensured together. -/
theorem Ensures.and (h : Ensures sheet x P) (h' : Ensures sheet x Q) : Ensures sheet x fun a => P a ∧ Q a :=
  fun t a t' hok hclean => ⟨(h t a t' hok hclean).1, (h t a t' hok hclean).2, (h' t a t' hok hclean).2⟩

/-- A reading that notes a problem never ends without one. -/
theorem ensures_report (problem : String) : Ensures sheet (report problem) fun _ => False :=
  ensures_modify fun _ h => absurd (List.append_eq_nil_iff.mp h).2 (List.cons_ne_nil _ _)

/-- Counting a node notes no problem. -/
theorem ensures_visit : Ensures sheet visit fun _ => True := by
  intro t _ t' hok hclean
  have hsame {counted : Tally} (hcounted : counted.problems = t.problems)
      (h : (if counted.isExcessive then unreadable "document contains excessive aliasing" else pure () :
        Reading Unit) sheet counted = .ok ((), t')) : t'.problems = t.problems := by
    split at h
    · cases h
    · obtain ⟨-, rfl⟩ := Prod.mk.inj (Except.ok.inj h)
      exact hcounted
  refine ⟨?_, trivial⟩
  rw [← hclean]
  refine (hsame ?_ hok).symm
  rfl

/-- In place of an alias, the node that it refers to is read. -/
theorem ensures_reach {n : Node} {body : Node → Reading α} (h : Ensures sheet (body (sheet.target n)) P) :
    Ensures sheet (reach n body) P := by
  refine ensures_visit.bind fun _ => ?_
  cases n with
  | reference line name serial target =>
    refine ensures_get.bind fun t => ?_
    split
    · exact ensures_throw _
    · refine Ensures.bind (P := fun _ => True) (ensures_modify fun t h => ⟨h, trivial⟩) fun _ => ?_
      refine ensures_visit.bind fun _ => ensures_read_bind (h.bind fun a => ?_)
      refine Ensures.bind (P := fun _ => True) (ensures_modify fun t h => ⟨h, trivial⟩) fun _ => ?_
      exact ensures_pure fun _ ha _ _ _ _ => ha
  | _ => exact h.imp fun a ha _ => ha

end Rules

namespace Sheet

/-- What a node stands for as a scalar. -/
def value? (sheet : Sheet) (n : Node) : Option Document :=
  match sheet.target n with
  | .scalar _ tag text => Yaml.value? tag text
  | _ => none

/-- The text of a node: any scalar but null has one. -/
def text? (sheet : Sheet) (n : Node) : Option String :=
  match sheet.target n with
  | .scalar _ tag text =>
    (Yaml.value? tag text).bind fun d =>
      if d.isNull then none else if tag == binaryTag then d.text? else some text
  | _ => none

end Sheet

section Scalars

variable {α : Type} {sheet : Sheet} {n : Node}

/-- A scalar is read as what its tag and its text stand for. -/
theorem ensures_scalarValue (tag text : String) :
    Ensures sheet (scalarValue tag text) fun d => value? tag text = some d := by
  unfold scalarValue value?
  split
  · split
    · next s hs => exact ensures_pure (by rw [hs]; rfl)
    · exact ensures_throw _
  · split
    · next d hd => exact ensures_pure hd
    · exact ensures_throw _

/-- A node that does not fit is a problem. -/
theorem ensures_reportMismatch (n : Node) (typeName : String) :
    Ensures sheet (reportMismatch n typeName) fun _ => False :=
  ensures_report _

/-- Keys that are checked without a problem are not repeated. -/
theorem ensures_checkKeys (pairs : List (Node × Node)) :
    Ensures sheet (checkKeys pairs) fun ok => ok = true ∧ repeatedKeys pairs = [] := by
  refine Ensures.bind (P := fun _ => repeatedKeys pairs = []) (ensures_modify fun t h => ?_) fun _ => ?_
  · exact List.append_eq_nil_iff.mp h
  · refine ensures_pure fun h => ⟨?_, h⟩
    rw [h]
    rfl

/-- A node that is refused is a problem, as a mismatch or for its repeated keys. -/
theorem ensures_refuse (n : Node) (typeName : String) : Ensures sheet (refuse n typeName) fun _ => False := by
  cases n with
  | mapping line tag pairs =>
    refine (ensures_checkKeys pairs).bind fun ok => ?_
    split
    · exact (ensures_reportMismatch _ typeName).imp fun _ h _ => h
    · next hok => exact ensures_pure fun h => hok h.1
  | _ => exact ensures_reportMismatch _ typeName

/-- A scalar is read if what it stands for is accepted; null is none. -/
theorem ensures_readScalar (typeName : String) (accept : String → String → Document → Option α) :
    Ensures sheet (readScalar typeName accept n) fun found => ∃ line tag text d,
      sheet.target n = .scalar line tag text ∧ value? tag text = some d ∧
        (d.isNull = true ∧ found = none ∨ d.isNull = false ∧ found.isSome ∧ found = accept tag text d) := by
  refine ensures_reach ?_
  generalize sheet.target n = target
  cases target with
  | scalar line tag text =>
    refine (ensures_scalarValue tag text).bind fun d => ?_
    split
    · next hnull => exact ensures_pure fun hd => ⟨line, tag, text, d, rfl, hd, .inl ⟨hnull, rfl⟩⟩
    · next hnull =>
      split
      · next a ha =>
        refine ensures_pure fun hd => ⟨line, tag, text, d, rfl, hd, .inr ?_⟩
        exact ⟨Bool.eq_false_iff.mpr hnull, rfl, ha.symm⟩
      · exact (ensures_reportMismatch _ _).bind fun _ => ensures_pure fun h => h.elim
  | _ => exact (ensures_refuse _ typeName).bind fun _ => ensures_pure fun h => h.elim

/-- A text is read as the node has it, or left unset if the node is null. -/
theorem ensures_readText : Ensures sheet (readText n) (· = sheet.text? n) := by
  refine (ensures_readScalar _ _).imp ?_
  rintro found ⟨line, tag, text, d, htarget, hd, hfound⟩
  rw [Sheet.text?, htarget]
  dsimp only
  rw [hd, Option.bind_some]
  obtain ⟨hnull, rfl⟩ | ⟨hnull, -, rfl⟩ := hfound
  · rw [if_pos hnull]
  · rw [hnull]
    rfl

/-- Only what is tagged as null has no text. -/
theorem ensures_readText_tag : Ensures sheet (readText n) fun found => found = none → sheet.tag n = nullTag := by
  refine (ensures_readScalar _ _).imp ?_
  rintro found ⟨line, tag, text, d, htarget, hd, hfound⟩ rfl
  obtain ⟨hnull, -⟩ | ⟨-, hsome, -⟩ := hfound
  · cases d with
    | null =>
      rw [Sheet.tag, htarget]
      exact tag_of_null hd
    | _ => cases hnull
  · cases hsome

end Scalars

/-- Everything that ends a reading satisfies `P`. -/
def Throws {α : Type} (sheet : Sheet) (x : Reading α) (P : Error → Prop) : Prop :=
  ∀ t e, x sheet t = .error e → P e

/-- An error that is no list of problems. -/
def IsFatal (e : Error) : Prop :=
  ∀ problems, e.cause ≠ .mismatch problems

section Fatal

variable {α β : Type} {sheet : Sheet} {x : Reading α} {P : Error → Prop}

private theorem throws_pure (a : α) : Throws sheet (pure a) P := by
  intro t e h
  cases h

private theorem throws_throw {e : Error} (h : P e) : Throws sheet (throw e : Reading α) P := by
  intro t e' h'
  obtain rfl := Except.error.inj h'
  exact h

private theorem Throws.bind {f : α → Reading β} (hx : Throws sheet x P) (hf : ∀ a, Throws sheet (f a) P) :
    Throws sheet (x >>= f) P := by
  intro t e h
  change (x sheet t >>= fun r => f r.1 sheet r.2) = .error e at h
  cases hx' : x sheet t with
  | error e' =>
    rw [hx'] at h
    obtain rfl := Except.error.inj h
    exact hx t e' hx'
  | ok r =>
    rw [hx'] at h
    exact hf r.1 r.2 e h

private theorem throws_read : Throws sheet read P := by
  intro t e h
  cases h

private theorem throws_get : Throws sheet get P := by
  intro t e h
  cases h

private theorem throws_modify (f : Tally → Tally) : Throws sheet (modify f) P := by
  intro t e h
  cases h

private theorem throws_unreadable (text : String) : Throws sheet (unreadable text : Reading α) IsFatal :=
  throws_throw nofun

private theorem throws_visit : Throws sheet visit IsFatal := by
  refine throws_get.bind fun t => ?_
  have hend (counted : Tally) : Throws sheet
      (if counted.isExcessive then unreadable "document contains excessive aliasing" else pure ())
      IsFatal := by
    split
    · exact throws_unreadable _
    · exact throws_pure ()
  exact Throws.bind (x := set _) (fun _ _ h => nomatch h) fun _ => hend _

private theorem throws_reach {n : Node} {body : Node → Reading α} (h : ∀ n, Throws sheet (body n) IsFatal) :
    Throws sheet (reach n body) IsFatal := by
  refine throws_visit.bind fun _ => ?_
  cases n with
  | reference line name serial target =>
    refine throws_get.bind fun t => ?_
    split
    · exact throws_unreadable _
    · refine (throws_modify _).bind fun _ => throws_visit.bind fun _ => throws_read.bind fun s => ?_
      exact (h _).bind fun a => (throws_modify _).bind fun _ => throws_pure a
  | _ => exact h _

private theorem throws_scalarValue (tag text : String) : Throws sheet (scalarValue tag text) IsFatal := by
  unfold scalarValue
  split
  · split
    · exact throws_pure _
    · exact throws_unreadable _
  · split
    · exact throws_pure _
    · exact throws_unreadable _

private theorem throws_reportMismatch (n : Node) (typeName : String) : Throws sheet (reportMismatch n typeName) P :=
  throws_modify _

private theorem throws_refuse (n : Node) (typeName : String) : Throws sheet (refuse n typeName) P := by
  unfold refuse
  split
  · refine Throws.bind ((throws_modify _).bind fun _ => throws_pure _) fun ok => ?_
    split
    · exact throws_reportMismatch _ typeName
    · exact throws_pure ()
  · exact throws_reportMismatch _ typeName

/-- Reading a scalar ends without a result only for a fault that ends all
    reading. -/
theorem throws_readScalar (typeName : String) (accept : String → String → Document → Option α) (n : Node) :
    Throws sheet (readScalar typeName accept n) IsFatal := by
  unfold readScalar
  refine throws_reach fun n => ?_
  cases n with
  | scalar line tag text =>
    refine (throws_scalarValue tag text).bind fun d => ?_
    split
    · exact throws_pure none
    · split
      · exact throws_pure _
      · exact (throws_reportMismatch _ _).bind fun _ => throws_pure none
  | _ => exact (throws_refuse _ _).bind fun _ => throws_pure none

/-- A reading that ends with a list of problems has noted one. It may throw only
    what is fatal, not a list of problems of its own. -/
theorem Throws.ne_nil_of_run (h : Throws sheet x IsFatal) {context : String} {problems : List String}
    (hrun : x.run sheet = .error ⟨context, .mismatch problems⟩) : problems ≠ [] := by
  unfold Reading.run at hrun
  split at hrun
  · next e hthrown =>
    obtain rfl := Except.error.inj hrun
    exact absurd rfl (h {} _ hthrown problems)
  · split at hrun
    · cases hrun
    · next hnoted =>
      cases hrun
      rintro hnil
      rw [hnil] at hnoted
      exact hnoted rfl

end Fatal

/-- What a state becomes when the items of a list are gone through, one step for
    each. -/
inductive Chain {σ ι : Type} (R : σ → ι → σ → Prop) : σ → List ι → σ → Prop where
  | nil (s : σ) : Chain R s [] s
  | cons {s s' s'' : σ} {i : ι} {rest : List ι} (hstep : R s i s') (hrest : Chain R s' rest s'') :
      Chain R s (i :: rest) s''

/-- Two chains may follow one another. -/
theorem Chain.append {σ ι : Type} {R : σ → ι → σ → Prop} {s s' s'' : σ} {before after : List ι}
    (h : Chain R s before s') (h' : Chain R s' after s'') : Chain R s (before ++ after) s'' := by
  induction h with
  | nil => exact h'
  | cons hstep _ ih => exact .cons hstep (ih h')

/-- A list that is read item by item comes to a chain of what the items ensure. -/
theorem ensures_foldlM {σ ι : Type} {sheet : Sheet} {f : σ → ι → Reading σ} {R : σ → ι → σ → Prop}
    (hf : ∀ s i, Ensures sheet (f s i) (R s i)) (s : σ) (items : List ι) :
    Ensures sheet (items.foldlM f s) (Chain R s items) := by
  induction items generalizing s with
  | nil => exact ensures_pure (.nil s)
  | cons i rest ih =>
    rw [List.foldlM_cons]
    exact (hf s i).bind fun s' => (ih s').imp fun _ hrest hstep => .cons hstep hrest

section Documents

variable {sheet : Sheet} {n : Node}

private theorem ensures_readItems {α : Type} {item : Node → Reading (Option α)}
    (h : ∀ n, Ensures sheet (item n) fun _ => True) (items : List Node) :
    Ensures sheet (readItems item items) fun _ => True := by
  induction items with
  | nil => exact ensures_pure trivial
  | cons n rest ih => exact (h n).bind_true fun a => ih.bind_true fun more => ensures_pure trivial

/-- The keys of a mapping that can be taken are scalars. A key that is a list or
    a mapping is noted as a problem by whoever reads it. -/
theorem ensures_takenKeys {readKey : Node → Reading (Option Document)}
    (h : ∀ n, Ensures sheet (readKey n) fun d =>
      d.elim False (·.isComposite = true) ∨ d = sheet.value? n) (pairs : List (Node × Node)) :
    Ensures sheet (takenKeys readKey pairs) (· = pairs.filterMap fun p => sheet.value? p.1) := by
  induction pairs with
  | nil => exact ensures_pure rfl
  | cons pair rest ih =>
    obtain ⟨key, value⟩ := pair
    refine (h key).bind fun d => ?_
    cases d with
    | none =>
      refine ih.imp ?_
      rintro _ rfl (h | h)
      · cases h
      · rw [List.filterMap_cons, ← h]
    | some d =>
      dsimp only
      split
      · exact ensures_throw _
      · next hscalar =>
        refine ih.map ?_
        rintro _ rfl (h | h)
        · exact absurd h hscalar
        · rw [List.filterMap_cons, ← h]

private theorem ensures_readPairs {readNode : Node → Reading (Option Document)}
    (h : ∀ n, Ensures sheet (readNode n) fun _ => True) (textKeys : Bool) (c : Collected)
    (pairs : List (Node × Node)) : Ensures sheet (readPairs readNode textKeys c pairs) fun _ => True := by
  induction pairs generalizing c with
  | nil => exact ensures_pure trivial
  | cons pair rest ih =>
    obtain ⟨key, value⟩ := pair
    rw [readPairs]
    split
    · exact ih c
    extract_lets next
    have hnext (k : Option Document) : Ensures sheet (next k) fun _ => True := by
      unfold next
      split
      · exact ih c
      · split
        · exact ensures_throw _
        split
        · exact ih c
        split
        · exact ensures_throw _
        refine (h value).bind_true fun d => ?_
        split
        · exact ih _
        · exact ih _
    split
    · exact Ensures.bind_true (P := fun _ => True) (ensures_readText.map fun _ _ => trivial) hnext
    · exact (h key).bind_true hnext

/-- A node is merged if it is a mapping without repeated keys. Everything else
    is noted as a problem, so nothing is passed over in silence. -/
theorem ensures_merge {α : Type} {c : α} {body : List (Node × Node) → Reading α}
    {R : List (Node × Node) → α → Prop} (h : ∀ pairs, Ensures sheet (body pairs) (R pairs)) (n : Node) :
    Ensures sheet (do
      if ← canMerge n then
        reach n fun
          | .mapping _ _ pairs => do
            if ← checkKeys pairs then body pairs else pure c
          | _ => pure c
      else notMergeable)
      fun c' => ∃ line tag pairs, sheet.target n = .mapping line tag pairs ∧ R pairs c' := by
  refine ensures_read_bind ?_
  split
  · next hmapping =>
    refine ensures_reach ?_
    generalize sheet.target n = target at hmapping
    cases target with
    | mapping line tag pairs =>
      refine (ensures_checkKeys pairs).bind fun ok => ?_
      split
      · exact (h pairs).imp fun c' hc' _ => ⟨line, tag, pairs, rfl, hc'⟩
      · next hok => exact ensures_pure fun h => absurd h.1 hok
    | _ => cases hmapping
  · exact ensures_throw _

/-- By induction on the bound: reading a node and merging mappings call each
    other below it. -/
theorem ensures_readWithin_readMerged (bound : Nat) :
    (∀ n, Ensures sheet (readWithin bound n) fun d =>
      d.elim False (·.isComposite = true) ∨ d = sheet.value? n) ∧
    ∀ textKeys c pairs, Ensures sheet (readMerged bound textKeys c pairs) fun _ => True := by
  induction bound with
  | zero =>
    refine ⟨fun n => ?_, fun textKeys c pairs => ?_⟩
    · rw [readWithin]
      exact ensures_throw _
    · rw [readMerged]
      exact ensures_throw _
  | succ bound ih =>
    obtain ⟨hnode, hmerged⟩ := ih
    have hany (n : Node) : Ensures sheet (readWithin bound n) fun _ => True := (hnode n).imp fun _ _ => trivial
    constructor
    · intro n
      rw [readWithin]
      refine ensures_reach ?_
      rw [Sheet.value?]
      generalize sheet.target n = target
      cases target with
      | scalar line tag text => exact (ensures_scalarValue tag text).map fun d hd => .inr hd.symm
      | sequence line tag items => exact (ensures_readItems hany items).map fun items _ => .inl rfl
      | mapping line tag pairs =>
        refine (ensures_checkKeys pairs).bind fun ok => ?_
        split
        · refine ensures_read_bind ?_
          refine (hmerged _ {} pairs).bind fun c => ensures_pure fun _ _ => .inl ?_
          rw [Option.elim_some, Collected.toDocument]
          split <;> rfl
        · next hok => exact ensures_pure fun h => absurd h.1 hok
      | reference line name serial target => exact ensures_pure (.inr rfl)
    · intro textKeys c pairs
      rw [readMerged]
      refine (ensures_readPairs hany textKeys c pairs).bind_true fun c => ?_
      split
      · exact ensures_pure trivial
      · next value _ =>
        extract_lets merge
        have hmerge (taken : List Document) : Ensures sheet (merge taken) fun _ => True := by
          have hfold := ensures_foldlM (fun c n => ensures_merge (c := c) (hmerged textKeys c) n)
            { c with taken := some taken } (mergedNodes value)
          exact hfold.bind_true fun merged => ensures_pure trivial
        split
        · exact hmerge _
        · exact (ensures_takenKeys hnode pairs).bind_true hmerge

/-- A node is read as the document that it stands for. Of a document with parts
    nothing is said. -/
theorem ensures_readDocument (n : Node) : Ensures sheet (readDocument n) fun d =>
    d.elim False (·.isComposite = true) ∨ d = sheet.value? n :=
  ensures_read_bind ((ensures_readWithin_readMerged _).1 n)

end Documents

end WhilePlus.Yaml
