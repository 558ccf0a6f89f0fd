import WhilePlus.Proofs.Lockfile.Entries
import WhilePlus.Proofs.Text.Lines

namespace WhilePlus

namespace LockedSuite

variable {s t : LockedSuite}

/-- The texts that a signature is made of. -/
def fields (s : LockedSuite) : List String :=
  [s.name, s.version, s.source, s.checksum]

/-- No field holds a character that separates fields. -/
def IsBarFree (s : LockedSuite) : Prop :=
  ∀ field ∈ s.fields, '|' ∉ field.toList

/-- The texts on both sides of the newline between two entries hold none. -/
def Adjoins (s t : LockedSuite) : Prop :=
  '\n' ∉ s.checksum.toList ∧ '\n' ∉ t.name.toList

instance (s : LockedSuite) : Decidable s.IsBarFree :=
  inferInstanceAs (Decidable (∀ field ∈ s.fields, _))

instance : DecidableRel Adjoins := fun s t =>
  inferInstanceAs (Decidable ('\n' ∉ s.checksum.toList ∧ '\n' ∉ t.name.toList))

private theorem signature_append (s : LockedSuite) (rest : String) :
    s.signature ++ rest =
      s.name ++ "|" ++ (s.version ++ "|" ++ (s.source ++ "|" ++ (s.checksum ++ "\n" ++ rest))) := by
  simp only [signature, String.append_assoc]

private theorem IsBarFree.bar_notMem_meet (hs : s.IsBarFree) (ht : t.IsBarFree) :
    '|' ∉ (s.checksum ++ "\n" ++ t.name).toList := by
  have hchecksum : '|' ∉ s.checksum.toList := hs _ (by simp [fields])
  have hname : '|' ∉ t.name.toList := ht _ (by simp [fields])
  simp [hchecksum, hname]

/-- All fields but the last are told by the bars behind them. The checksum may
    hold newlines, so it is told only together with what follows it. -/
theorem IsBarFree.fields_of_signature (hs : s.IsBarFree) (ht : t.IsBarFree) {rest rest' : String}
    (h : s.signature ++ rest = t.signature ++ rest') :
    s.name = t.name ∧ s.version = t.version ∧ s.source = t.source ∧
      s.checksum ++ "\n" ++ rest = t.checksum ++ "\n" ++ rest' := by
  rw [signature_append, signature_append] at h
  obtain ⟨hname, h⟩ := Text.cut_inj (hs _ (by simp [fields])) (ht _ (by simp [fields])) h
  obtain ⟨hversion, h⟩ := Text.cut_inj (hs _ (by simp [fields])) (ht _ (by simp [fields])) h
  obtain ⟨hsource, h⟩ := Text.cut_inj (hs _ (by simp [fields])) (ht _ (by simp [fields])) h
  exact ⟨hname, hversion, hsource, h⟩

private theorem eq_of_fields (hname : s.name = t.name) (hversion : s.version = t.version)
    (hsource : s.source = t.source) (hchecksum : s.checksum = t.checksum) : s = t := by
  cases s
  cases t
  simp_all

/-- A bar in a field may as well be the end of it, with the rest in the next
    field; in the last field it may be where the field begins, with the rest in
    the one before. -/
theorem exists_ne_of_bar (h : ¬ s.IsBarFree) : ∃ t : LockedSuite, t ≠ s ∧ t.signature = s.signature := by
  simp only [IsBarFree, fields, List.forall_mem_cons, not_and_or, not_not] at h
  obtain ⟨name, version, source, checksum⟩ := s
  rcases h with h | h | h | h | h
  · obtain ⟨before, after, rfl⟩ := Text.exists_cut h
    refine ⟨⟨before, after ++ "|" ++ version, source, checksum⟩, ?_, ?_⟩
    · exact fun h => Text.before_ne_cut (congrArg LockedSuite.name h)
    · simp only [signature, String.append_assoc]
      rfl
  · obtain ⟨before, after, rfl⟩ := Text.exists_cut h
    refine ⟨⟨name, before, after ++ "|" ++ source, checksum⟩, ?_, ?_⟩
    · exact fun h => Text.before_ne_cut (congrArg LockedSuite.version h)
    · simp only [signature, String.append_assoc]
      rfl
  · obtain ⟨before, after, rfl⟩ := Text.exists_cut h
    refine ⟨⟨name, version, before, after ++ "|" ++ checksum⟩, ?_, ?_⟩
    · exact fun h => Text.before_ne_cut (congrArg LockedSuite.source h)
    · simp only [signature, String.append_assoc]
      rfl
  · obtain ⟨before, after, rfl⟩ := Text.exists_cut h
    refine ⟨⟨name, version, source ++ "|" ++ before, after⟩, ?_, ?_⟩
    · exact fun h => Text.after_ne_cut (congrArg LockedSuite.checksum h)
    · simp only [signature, String.append_assoc]
      rfl
  · exact absurd (List.forall_mem_nil _) h

/-- A newline on either side of the one between two entries may as well be that
    one. -/
theorem exists_ne_of_newline (h : ¬ s.Adjoins t) :
    ∃ s' t' : LockedSuite, s' ≠ s ∧ s'.signature ++ t'.signature = s.signature ++ t.signature := by
  obtain ⟨name, version, source, checksum⟩ := s
  obtain ⟨name', version', source', checksum'⟩ := t
  rcases not_and_or.mp h with h | h
  · obtain ⟨before, after, rfl⟩ := Text.exists_cut (not_not.mp h)
    refine ⟨⟨name, version, source, before⟩, ⟨after ++ "\n" ++ name', version', source', checksum'⟩, ?_, ?_⟩
    · exact fun h => Text.before_ne_cut (congrArg LockedSuite.checksum h)
    · simp only [signature, String.append_assoc]
      rfl
  · obtain ⟨before, after, rfl⟩ := Text.exists_cut (not_not.mp h)
    refine ⟨⟨name, version, source, checksum ++ String.singleton '\n' ++ before⟩,
      ⟨after, version', source', checksum'⟩, ?_, ?_⟩
    · exact fun h => Text.before_ne_cut.symm (congrArg LockedSuite.checksum h)
    · simp only [signature, String.append_assoc]
      rfl

end LockedSuite

/-- The signature of some entries. -/
def signatureOf (suites : List LockedSuite) : String :=
  String.join (suites.map LockedSuite.signature)

/-- No bar stands in the entries, and no newline where two of them meet. -/
def Legible (suites : List LockedSuite) : Prop :=
  (∀ s ∈ suites, s.IsBarFree) ∧ suites.IsChain LockedSuite.Adjoins

instance (suites : List LockedSuite) : Decidable (Legible suites) :=
  inferInstanceAs (Decidable ((∀ s ∈ suites, s.IsBarFree) ∧ suites.IsChain LockedSuite.Adjoins))

section Signature

variable {s s' t t' : LockedSuite} {a b rest rest' : List LockedSuite}

private theorem mapM_id_map_some (suites : List LockedSuite) : (suites.map some).mapM id = some suites := by
  induction suites with
  | nil => rfl
  | cons s rest ih =>
    rw [List.map_cons, List.mapM_cons, ih]
    rfl

/-- The signature of a lockfile without missing entries is that of its entries. -/
theorem Lockfile.signature?_of_suites {lock : Lockfile} (h : lock.suites = a.map some) :
    lock.signature? = some (signatureOf a) := by
  rw [signature?, h, mapM_id_map_some]
  rfl

private theorem signatureOf_cons (s : LockedSuite) (rest : List LockedSuite) :
    signatureOf (s :: rest) = s.signature ++ signatureOf rest :=
  String.join_cons

/-- How many bars stand in the fields of some entries. -/
def barCount (suites : List LockedSuite) : Nat :=
  ((suites.flatMap LockedSuite.fields).flatMap String.toList).count '|'

private theorem barCount_cons (s : LockedSuite) (rest : List LockedSuite) :
    barCount (s :: rest) = (s.fields.flatMap String.toList).count '|' + barCount rest := by
  rw [barCount, List.flatMap_cons, List.flatMap_append, List.count_append, barCount]

private theorem barCount_eq_zero_iff : barCount a = 0 ↔ ∀ s ∈ a, s.IsBarFree := by
  rw [barCount, List.count_eq_zero]
  simp only [List.mem_flatMap, LockedSuite.IsBarFree, not_exists, not_and]
  exact ⟨fun h s hs field hfield => h field ⟨s, hs, hfield⟩,
    fun h field ⟨s, hs, hfield⟩ => h s hs field hfield⟩

/-- The signature has the bars of the fields, and three between the fields of
    each entry. -/
theorem count_signatureOf (suites : List LockedSuite) :
    (signatureOf suites).toList.count '|' = barCount suites + suites.length * 3 := by
  induction suites with
  | nil => rfl
  | cons s rest ih =>
    have hfirst : s.signature.toList.count '|' = (s.fields.flatMap String.toList).count '|' + 3 := by
      simp [LockedSuite.signature, LockedSuite.fields]
      omega
    rw [signatureOf_cons, String.toList_append, List.count_append, hfirst, ih, barCount_cons, List.length_cons]
    omega

/-- Where an entry meets the next there is one newline before the next bar, and
    its checksum ends there. -/
theorem checksum_of_adjoins (ha : ∀ u ∈ s :: t :: rest, u.IsBarFree) (hb : ∀ u ∈ s' :: t' :: rest', u.IsBarFree)
    (hadjoins : s.Adjoins t)
    (h : s.checksum ++ "\n" ++ signatureOf (t :: rest) = s'.checksum ++ "\n" ++ signatureOf (t' :: rest')) :
    s.checksum = s'.checksum := by
  have hmeet : '|' ∉ (s.checksum ++ "\n" ++ t.name).toList :=
    (ha s (by simp)).bar_notMem_meet (ha t (by simp))
  have hmeet' : '|' ∉ (s'.checksum ++ "\n" ++ t'.name).toList :=
    (hb s' (by simp)).bar_notMem_meet (hb t' (by simp))
  obtain ⟨text, htext⟩ : ∃ text, signatureOf (t :: rest) = t.name ++ "|" ++ text :=
    ⟨_, (signatureOf_cons t rest).trans (t.signature_append _)⟩
  obtain ⟨text', htext'⟩ : ∃ text, signatureOf (t' :: rest') = t'.name ++ "|" ++ text :=
    ⟨_, (signatureOf_cons t' rest').trans (t'.signature_append _)⟩
  rw [htext, htext'] at h
  simp only [← String.append_assoc] at h
  exact (Text.cut_inj_of_once hadjoins.1 hadjoins.2 (Text.cut_inj hmeet hmeet' h).1).1

/-- Legible entries are the only ones with their signature, among all that are
    as many and hold no bars. -/
theorem Legible.eq_of_length_eq (ha : Legible a) (hb : ∀ s ∈ b, s.IsBarFree)
    (hlength : a.length = b.length) (h : signatureOf a = signatureOf b) : a = b := by
  induction a generalizing b with
  | nil => exact (List.eq_nil_of_length_eq_zero hlength.symm).symm
  | cons s rest ih =>
    obtain ⟨s', rest', rfl⟩ := List.exists_cons_of_length_eq_add_one hlength.symm
    have hrest : rest.length = rest'.length := Nat.succ.inj hlength
    rw [signatureOf_cons, signatureOf_cons] at h
    obtain ⟨hname, hversion, hsource, hmeet⟩ :=
      (ha.1 s List.mem_cons_self).fields_of_signature (hb s' List.mem_cons_self) h
    have hchecksum : s.checksum = s'.checksum := by
      cases rest with
      | nil =>
        obtain rfl := List.eq_nil_of_length_eq_zero hrest.symm
        exact String.append_left_inj _ |>.mp (String.append_left_inj _ |>.mp hmeet)
      | cons t more =>
        obtain ⟨t', more', rfl⟩ := List.exists_cons_of_length_eq_add_one hrest.symm
        exact checksum_of_adjoins ha.1 hb (List.isChain_cons_cons.mp ha.2).1 hmeet
    obtain rfl := LockedSuite.eq_of_fields hname hversion hsource hchecksum
    rw [ih ⟨(List.forall_mem_cons.mp ha.1).2, ha.2.of_cons⟩ (List.forall_mem_cons.mp hb).2 hrest
      (String.append_right_inj _ |>.mp h)]

/-- The bars of a signature tell how many entries there are at most. If there
    are no fewer than the legible ones, or they hold no bars either, they are as
    many. -/
theorem Legible.eq_of_signatureOf_eq (ha : Legible a) (hb : a.length ≤ b.length ∨ ∀ s ∈ b, s.IsBarFree)
    (h : signatureOf a = signatureOf b) : a = b := by
  have hbars : barCount a + a.length * 3 = barCount b + b.length * 3 := by
    rw [← count_signatureOf, h, count_signatureOf]
  have hnone : barCount a = 0 := barCount_eq_zero_iff.mpr ha.1
  rw [← barCount_eq_zero_iff] at hb
  exact ha.eq_of_length_eq (barCount_eq_zero_iff.mp (by omega)) (by omega) h

/-- If no others have their signature, then entries are legible: a bar in a
    field, or a newline next to the end of an entry, could be moved. -/
theorem legible_of_forall_eq
    (h : ∀ b : List LockedSuite, a.length = b.length → signatureOf a = signatureOf b → a = b) :
    Legible a := by
  induction a with
  | nil => exact ⟨nofun, .nil⟩
  | cons s rest ih =>
    have hrest : Legible rest := by
      refine ih fun b hlength hb => (List.cons.inj (h (s :: b) (congrArg Nat.succ hlength) ?_)).2
      rw [signatureOf_cons, signatureOf_cons, hb]
    have hbars : s.IsBarFree := by
      by_contra hnot
      obtain ⟨t, hne, ht⟩ := LockedSuite.exists_ne_of_bar hnot
      refine hne (List.cons.inj (h (t :: rest) rfl ?_)).1.symm
      rw [signatureOf_cons, signatureOf_cons, ht]
    refine ⟨List.forall_mem_cons.mpr ⟨hbars, hrest.1⟩, ?_⟩
    cases rest with
    | nil => exact .singleton s
    | cons t more =>
      refine .cons_cons ?_ hrest.2
      by_contra hnot
      obtain ⟨s', t', hne, hpair⟩ := LockedSuite.exists_ne_of_newline hnot
      refine hne (List.cons.inj (h (s' :: t' :: more) rfl ?_)).1.symm
      simp only [signatureOf_cons, ← String.append_assoc, hpair]

end Signature

end WhilePlus
