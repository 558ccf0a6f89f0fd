import Mathlib.Data.List.TakeWhile
import WhilePlus.Document.Fault
import WhilePlus.Proofs.Number.Numeral

namespace WhilePlus

/-- Whether a character ends a name or a number in the text of a place. -/
def endsStep (c : Char) : Bool :=
  c == '.' || c == '[' || c == ']'

/-- A step whose text reads back: a number, or a name without characters that
    end one. -/
def Step.IsPlain : Step → Prop
  | .field name => name ≠ "" ∧ ∀ c ∈ name.toList, endsStep c = false
  | .index _ => True

instance (step : Step) : Decidable step.IsPlain :=
  match step with
  | .field name =>
    have : Decidable (∀ c ∈ name.toList, endsStep c = false) := List.decidableBAll _ _
    inferInstanceAs (Decidable (name ≠ "" ∧ ∀ c ∈ name.toList, endsStep c = false))
  | .index _ => inferInstanceAs (Decidable True)

namespace Place

/-- A place whose text reads back. -/
def IsPlain (p : Place) : Prop :=
  ∀ step ∈ p, step.IsPlain

/-- The root is a plain place. -/
theorem isPlain_nil : IsPlain [] := nofun

/-- A place is plain exactly if its first step and the rest of it are. -/
theorem isPlain_cons {step : Step} {p : Place} : IsPlain (step :: p) ↔ step.IsPlain ∧ IsPlain p :=
  List.forall_mem_cons

/-- A place below another one is plain exactly if both ways are. -/
theorem isPlain_append {p q : Place} : IsPlain (p ++ q) ↔ IsPlain p ∧ IsPlain q :=
  List.forall_mem_append

/-- The text of steps that come after others. -/
def trail : Place → List Char
  | [] => []
  | .field name :: rest => '.' :: (name.toList ++ trail rest)
  | .index i :: rest => '[' :: (Nat.toDigits 10 i ++ ']' :: trail rest)

variable {p q : Place}

private theorem toList_foldl_extend {s : String} (h : s ≠ "") :
    (p.foldl Step.extend s).toList = s.toList ++ trail p := by
  induction p generalizing s with
  | nil => rw [List.foldl_nil, trail, List.append_nil]
  | cons step rest ih =>
    have hextend : (step.extend s).toList = s.toList ++ trail [step] := by
      cases step with
      | field name =>
        have hname : ".".toList = ['.'] := rfl
        simp [Step.extend, String.isEmpty_iff, h, trail, hname]
      | index i => simp [Step.extend, trail, ToString.toString, Nat.repr]
    have hne : step.extend s ≠ "" := by
      intro hempty
      rw [hempty] at hextend
      simp [h] at hextend
    rw [List.foldl_cons, ih hne, hextend, List.append_assoc]
    cases step <;> simp [trail]

private theorem toList_display (p : Place) (hplain : p.IsPlain) :
    p.display.toList =
      match p with
      | .field name :: rest => name.toList ++ trail rest
      | p => trail p := by
  unfold display
  cases p with
  | nil => rfl
  | cons step rest =>
    obtain ⟨hstep, -⟩ := isPlain_cons.mp hplain
    cases step with
    | field name => exact toList_foldl_extend hstep.1
    | index i =>
      rw [List.foldl_cons, toList_foldl_extend (by simp [Step.extend])]
      simp [Step.extend, trail, ToString.toString, Nat.repr]

/-- What stands before the first character that ends a step is the same in two
    spellings of one text, and so is what follows. A text may end with the step. -/
theorem eq_of_append_eq {cs cs' xs xs' : List Char} (hcs : ∀ c ∈ cs, endsStep c = false)
    (hcs' : ∀ c ∈ cs', endsStep c = false) (hxs : ∀ c ∈ xs.head?, endsStep c = true)
    (hxs' : ∀ c ∈ xs'.head?, endsStep c = true) (h : cs ++ xs = cs' ++ xs') : cs = cs' ∧ xs = xs' := by
  have htake {cs xs : List Char} (hcs : ∀ c ∈ cs, endsStep c = false)
      (hxs : ∀ c ∈ xs.head?, endsStep c = true) : (cs ++ xs).takeWhile (! endsStep ·) = cs := by
    rw [List.takeWhile_append_of_pos fun c hc => by rw [hcs c hc]; rfl]
    cases xs with
    | nil => simp
    | cons x rest => simp [hxs x rfl]
  obtain rfl : cs = cs' := by rw [← htake hcs hxs, h, htake hcs' hxs']
  exact ⟨rfl, List.append_cancel_left h⟩

private theorem head?_trail (p : Place) : ∀ c ∈ (trail p).head?, endsStep c = true := by
  cases p with
  | nil => nofun
  | cons step rest =>
    cases step <;>
    · rintro c ⟨⟩
      rfl

private theorem endsStep_of_mem_toDigits {i : Nat} : ∀ c ∈ Nat.toDigits 10 i, endsStep c = false := by
  intro c hc
  have hdigit := Nat.isDigit_of_mem_toDigits (by decide) (by decide) hc
  cases hends : endsStep c with
  | false => rfl
  | true =>
    simp only [endsStep, Bool.or_eq_true, beq_iff_eq] at hends
    rcases hends with (rfl | rfl) | rfl <;> cases hdigit

private theorem trail_injective {p q : Place} (hp : p.IsPlain) (hq : q.IsPlain)
    (h : trail p = trail q) : p = q := by
  induction p generalizing q with
  | nil =>
    cases q with
    | nil => rfl
    | cons step rest => cases step <;> cases h
  | cons step rest ih =>
    obtain ⟨hstep, hrest⟩ := isPlain_cons.mp hp
    cases q with
    | nil => cases step <;> cases h
    | cons step' rest' =>
      obtain ⟨hstep', hrest'⟩ := isPlain_cons.mp hq
      cases step with
      | field name =>
        cases step' with
        | index i => simp [trail] at h
        | field name' =>
          obtain ⟨hname, h⟩ := eq_of_append_eq hstep.2 hstep'.2 (head?_trail rest) (head?_trail rest')
            (List.cons.inj h).2
          rw [String.toList_inj.mp hname, ih hrest hrest' h]
      | index i =>
        cases step' with
        | field name => simp [trail] at h
        | index i' =>
          have hbracket (xs : List Char) : ∀ c ∈ (']' :: xs).head?, endsStep c = true := by
            rintro c ⟨⟩
            rfl
          obtain ⟨hi, h⟩ := eq_of_append_eq endsStep_of_mem_toDigits endsStep_of_mem_toDigits
            (hbracket _) (hbracket _) (List.cons.inj h).2
          have hi : i = i' := by
            rw [← Nat.ofDigitChars_toDigits (by decide) (Nat.le_refl 10) (n := i), hi,
              Nat.ofDigitChars_toDigits (by decide) (Nat.le_refl 10)]
          rw [hi, ih hrest hrest' (List.cons.inj h).2]

/-- Places with the same text are the same. The names of fields in them must be
    plain: a bracket or a dot in a name could start another step. -/
theorem display_injective {p q : Place} (hp : p.IsPlain)
    (hq : q.IsPlain) (h : p.display = q.display) : p = q := by
  have htext := congrArg String.toList h
  rw [toList_display p hp, toList_display q hq] at htext
  have hname {name : String} {xs ys : List Char} (hstep : (Step.field name).IsPlain)
      (hys : ∀ c ∈ ys.head?, endsStep c = true) : name.toList ++ xs ≠ ys := by
    obtain ⟨hne, hends⟩ := hstep
    rintro rfl
    cases hcs : name.toList with
    | nil => exact hne (String.toList_eq_nil_iff.mp hcs)
    | cons c cs =>
      rw [hcs] at hys hends
      cases (hends c List.mem_cons_self).symm.trans (hys c rfl)
  match p, q with
  | .field name :: rest, .field name' :: rest' =>
    obtain ⟨hstep, hrest⟩ := isPlain_cons.mp hp
    obtain ⟨hstep', hrest'⟩ := isPlain_cons.mp hq
    obtain ⟨heq, htrail⟩ := eq_of_append_eq hstep.2 hstep'.2 (head?_trail rest) (head?_trail rest')
      htext
    rw [String.toList_inj.mp heq, trail_injective hrest hrest' htrail]
  | .field name :: rest, [] => exact absurd htext (hname (hp _ List.mem_cons_self) (head?_trail []))
  | .field name :: rest, .index i :: rest' =>
    exact absurd htext (hname (hp _ List.mem_cons_self) (head?_trail (.index i :: rest')))
  | [], .field name :: rest =>
    exact absurd htext.symm (hname (hq _ List.mem_cons_self) (head?_trail []))
  | .index i :: rest', .field name :: rest =>
    exact absurd htext.symm (hname (hq _ List.mem_cons_self) (head?_trail (.index i :: rest')))
  | [], [] => rfl
  | [], .index i :: rest => exact trail_injective hp hq htext
  | .index i :: rest, [] => exact trail_injective hp hq htext
  | .index i :: rest, .index i' :: rest' => exact trail_injective hp hq htext

end Place

end WhilePlus
