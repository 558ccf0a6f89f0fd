import WhilePlus.Run.Execute

namespace WhilePlus

namespace Settings

variable {cfg : Settings} {st : State} {task : Task} {failure : Failure}

private theorem exceeded?_eq_some_iff {limit : Nat} :
    cfg.exceeded? st = some limit ↔ cfg.limit = some limit ∧ limit < st.steps := by
  unfold exceeded?
  split
  · next bound hlimit =>
    rw [hlimit, Option.ite_none_right_eq_some]
    constructor
    · rintro ⟨hlt, ⟨⟩⟩
      exact ⟨rfl, hlt⟩
    · rintro ⟨⟨⟩, hlt⟩
      exact ⟨hlt, rfl⟩
  · next hlimit => simp [hlimit]

/-- All that can be refused, and why. -/
theorem refusal?_eq_some_cases (h : cfg.refusal? st task = some failure) :
    (∃ s limit, task = .stmt s ∧ failure = .stepLimit limit ∧ cfg.limit = some limit ∧
      limit < st.steps) ∨
    ∃ span condition body, task = .loop span condition body ∧ failure = .canceled span ∧
      cfg.isCanceled st = true := by
  cases task with
  | stmt s =>
    obtain ⟨limit, hexceeded, rfl⟩ := Option.map_eq_some_iff.mp h
    obtain ⟨hlimit, hlt⟩ := exceeded?_eq_some_iff.mp hexceeded
    exact .inl ⟨s, limit, rfl, rfl, hlimit, hlt⟩
  | loop span condition body =>
    obtain ⟨hcanceled, hfailure⟩ := Option.ite_none_right_eq_some.mp h
    cases hfailure
    exact .inr ⟨span, condition, body, rfl, rfl, hcanceled⟩

private theorem isSome_of_isCanceled (h : cfg.isCanceled st = true) :
    cfg.cancelAt.isSome ∨ cfg.cancelBefore.isSome := by
  obtain ⟨runId, limit, cancelAt, cancelBefore⟩ := cfg
  cases cancelAt with
  | some k => exact .inl rfl
  | none =>
    cases cancelBefore with
    | some k => exact .inr rfl
    | none => cases h

end Settings

/-- The failures that the settings of a run bring about: its limit, or its
    cancellation. -/
inductive Failure.OfSettings (cfg : Settings) : Failure → Prop where
  | stepLimit {limit : Nat} (hlimit : cfg.limit = some limit) : OfSettings cfg (.stepLimit limit)
  | canceled {span : Span} (hcancel : cfg.cancelAt.isSome ∨ cfg.cancelBefore.isSome) :
      OfSettings cfg (.canceled span)

/-- The host refuses a task only for what the settings say. -/
theorem Settings.refusal?_ofSettings {cfg : Settings} {st : State} {task : Task} {failure : Failure}
    (h : cfg.refusal? st task = some failure) : failure.OfSettings cfg := by
  obtain ⟨_, limit, _, rfl, hlimit, _⟩ | ⟨span, _, _, _, rfl, hcanceled⟩ := refusal?_eq_some_cases h
  · exact .stepLimit hlimit
  · exact .canceled (isSome_of_isCanceled hcanceled)

end WhilePlus
