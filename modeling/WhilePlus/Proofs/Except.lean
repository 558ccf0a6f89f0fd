import Mathlib.Data.List.Forall2

namespace WhilePlus

variable {ε ε' α β : Type}

/-- Two steps succeed exactly if the first does and the second does with its
    result. -/
theorem bind_eq_ok_iff {x : Except ε α} {f : α → Except ε β} {b : β} :
    (x >>= f) = .ok b ↔ ∃ a, x = .ok a ∧ f a = .ok b := by
  cases x <;> simp [bind, Except.bind]

/-- A result that is changed afterwards is there exactly if there was one
    before. -/
theorem map_eq_ok_iff {x : Except ε α} {f : α → β} {b : β} :
    (f <$> x) = .ok b ↔ ∃ a, x = .ok a ∧ f a = b := by
  cases x <;> simp [Functor.map, Except.map]

/-- A step that has succeeded hands on its result. -/
theorem ok_bind (a : α) (f : α → Except ε β) : (Except.ok a >>= f) = f a := rfl

/-- A result has no error to change. -/
theorem mapError_ok (f : ε → ε') (a : α) :
    (Except.ok a : Except ε α).mapError f = .ok a := rfl

/-- Changing the error of a computation changes no result. -/
theorem mapError_eq_ok_iff {x : Except ε α} {f : ε → ε'} {a : α} :
    x.mapError f = .ok a ↔ x = .ok a := by
  cases x with
  | error e => exact ⟨nofun, nofun⟩
  | ok b =>
    constructor
    · rintro ⟨⟩
      rfl
    · rintro ⟨⟩
      rfl

section List

variable {f : α → Except ε β} {as : List α} {a : α} {e : ε}

private theorem mapM_cons_of_ok {b : β} (h : f a = .ok b) (as : List α) :
    (a :: as).mapM f = (b :: ·) <$> as.mapM f := by
  rw [List.mapM_cons, h, ok_bind, ← bind_pure_comp]

private theorem mapM_cons_of_error (h : f a = .error e) (as : List α) : (a :: as).mapM f = .error e := by
  rw [List.mapM_cons, h]
  rfl

/-- A list of steps succeeds exactly if each of them does, with the results in
    their order. -/
theorem mapM_eq_ok_iff {bs : List β} :
    as.mapM f = .ok bs ↔ List.Forall₂ (fun a b => f a = .ok b) as bs := by
  induction as generalizing bs with
  | nil => simp [pure, Except.pure, eq_comm]
  | cons a as ih =>
    cases ha : f a with
    | error e => simp [mapM_cons_of_error ha, List.forall₂_cons_left_iff, ha]
    | ok b =>
      rw [mapM_cons_of_ok ha, map_eq_ok_iff, List.forall₂_cons_left_iff]
      simp only [ih, ha, Except.ok.injEq, exists_and_left, exists_eq_left', @eq_comm _ _ bs]

/-- A list of steps fails exactly with the first of them that does. -/
theorem mapM_eq_error_iff : as.mapM f = .error e ↔
    ∃ before a after, as = before ++ a :: after ∧ (∀ b ∈ before, ∃ c, f b = .ok c) ∧ f a = .error e := by
  constructor
  · intro h
    induction as with
    | nil => cases h
    | cons a as ih =>
      cases ha : f a with
      | error e' =>
        rw [mapM_cons_of_error ha] at h
        cases h
        exact ⟨[], a, as, rfl, by simp, ha⟩
      | ok b =>
        rw [mapM_cons_of_ok ha] at h
        cases hrest : as.mapM f with
        | ok bs => rw [hrest] at h; cases h
        | error e' =>
          rw [hrest] at h
          obtain ⟨before, failing, after, rfl, hbefore, hfails⟩ := ih (hrest.trans h)
          exact ⟨a :: before, failing, after, rfl, List.forall_mem_cons.mpr ⟨⟨b, ha⟩, hbefore⟩, hfails⟩
  · rintro ⟨before, a, after, rfl, hbefore, ha⟩
    induction before with
    | nil => exact mapM_cons_of_error ha after
    | cons first before ih =>
      obtain ⟨⟨b, hfirst⟩, hbefore⟩ := List.forall_mem_cons.mp hbefore
      rw [List.cons_append, mapM_cons_of_ok hfirst, ih hbefore]
      rfl

end List

end WhilePlus
