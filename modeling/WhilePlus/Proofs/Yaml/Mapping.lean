import WhilePlus.Proofs.Yaml.Reading

namespace WhilePlus.Yaml

/-- Whether a name is taken, which it can only be inside a merge. -/
def isTaken (taken : Option (List Document)) (name : String) : Bool :=
  (taken.map (·.any (Document.sameKey (.text name)))).getD false

namespace Sheet

/-- The entries of a mapping without what is merged into it, and the keys that
    are taken after them. A key that is null is passed over. -/
def entries (sheet : Sheet) (seen : List String) (taken : Option (List Document)) :
    List (Node × Node) → List Entry × Option (List Document)
  | [] => ([], taken)
  | (key, value) :: rest =>
    if key.isMerge then entries sheet seen taken rest
    else
      match sheet.text? key with
      | none => entries sheet seen taken rest
      | some name =>
        if isTaken taken name then entries sheet seen taken rest
        else
          let more := entries sheet (name :: seen) (taken.map (.text name :: ·)) rest
          (⟨key, name, value, seen.contains name, taken.isSome⟩ :: more.1, more.2)

/-- The entries of mappings that are merged one after the other. -/
def mergedEntries (sheet : Sheet)
    (below : Option (List Document) → List (Node × Node) → List Entry × Option (List Document))
    (taken : Option (List Document)) : List Node → List Entry × Option (List Document)
  | [] => ([], taken)
  | n :: rest =>
    match sheet.target n with
    | .mapping _ _ pairs =>
      let first := below taken pairs
      let more := mergedEntries sheet below first.2 rest
      (first.1 ++ more.1, more.2)
    | _ => mergedEntries sheet below taken rest

/-- The entries of a mapping with those that are merged into it, for the keys
    that are taken. Outside of a merge no key is taken afterwards. -/
def withMerged (own : List Entry × Option (List Document))
    (merged : Option (List Document) → List Entry × Option (List Document)) :
    List Entry × Option (List Document) :=
  (own.1 ++ (merged own.2).1, own.2.bind fun _ => (merged own.2).2)

/-- The entries of a mapping and then those that are merged into it, as far down
    as the bound allows. -/
def allEntries (sheet : Sheet) :
    Nat → Option (List Document) → List (Node × Node) → List Entry × Option (List Document)
  | 0, taken, pairs => sheet.entries [] taken pairs
  | bound + 1, taken, pairs =>
    match mergeValue? pairs with
    | none => sheet.entries [] taken pairs
    | some value =>
      withMerged (sheet.entries [] taken pairs) fun taken =>
        sheet.mergedEntries (allEntries sheet bound)
          (some (taken.getD (pairs.filterMap fun p => sheet.value? p.1))) (mergedNodes value)

/-- The fields of a node that is a mapping. -/
def fields? (sheet : Sheet) (n : Node) : Option (List Entry) :=
  match sheet.target n with
  | .mapping _ _ pairs => some (sheet.allEntries sheet.bound none pairs).1
  | _ => none

/-- Whether the keys of pairs have texts, but for the one that merges and those
    that are null. -/
def HasTexts (sheet : Sheet) (pairs : List (Node × Node)) : Prop :=
  ∀ p ∈ pairs, p.1.isMerge = true ∨ sheet.tag p.1 = nullTag ∨ ∃ name, sheet.text? p.1 = some name

end Sheet

/-- Only a mapping has entries: its own, and those that are merged into it. -/
theorem exists_pairs_of_fields? {sheet : Sheet} {n : Node} {fields : List Entry}
    (h : sheet.fields? n = some fields) :
    ∃ line tag pairs, sheet.target n = .mapping line tag pairs ∧
      fields = (sheet.allEntries sheet.bound none pairs).1 := by
  unfold Sheet.fields? at h
  split at h
  · next line tag pairs htarget => exact ⟨line, tag, pairs, htarget, (Option.some.inj h).symm⟩
  · cases h

/-- A mapping is no scalar. -/
theorem value?_of_fields? {sheet : Sheet} {n : Node} {fields : List Entry}
    (h : sheet.fields? n = some fields) : sheet.value? n = none := by
  obtain ⟨line, tag, pairs, htarget, -⟩ := exists_pairs_of_fields? h
  rw [Sheet.value?, htarget]

section Entries

variable {σ : Type} {sheet : Sheet} {r : MappingReader σ} {R : σ → Entry → σ → Prop}

private theorem ensures_readEntries (hstep : ∀ s e, Ensures sheet (r.step s e) (R s e)) (seen : List String)
    (filled : Filled σ) (pairs : List (Node × Node)) :
    Ensures sheet (readEntries r seen filled pairs) fun after =>
      after.2 = (sheet.entries seen filled.2 pairs).2 ∧
        Chain R filled.1 (sheet.entries seen filled.2 pairs).1 after.1 ∧ sheet.HasTexts pairs := by
  induction pairs generalizing seen filled with
  | nil => exact ensures_pure ⟨rfl, .nil _, nofun⟩
  | cons pair rest ih =>
    obtain ⟨key, value⟩ := pair
    obtain ⟨s, taken⟩ := filled
    rw [readEntries, Sheet.entries]
    split
    · next hmerge =>
      exact (ih seen (s, taken)).imp fun after ⟨htaken, hchain, hrest⟩ =>
        ⟨htaken, hchain, List.forall_mem_cons.mpr ⟨.inl hmerge, hrest⟩⟩
    refine (ensures_readText.and ensures_readText_tag).bind fun found => ?_
    split
    · refine (ih seen (s, taken)).imp ?_
      rintro after ⟨htaken, hchain, hrest⟩ ⟨hfound, htag⟩
      rw [← hfound]
      exact ⟨htaken, hchain, List.forall_mem_cons.mpr ⟨.inr (.inl (htag rfl)), hrest⟩⟩
    · next name =>
      dsimp only
      split
      · next htaken =>
        refine (ih seen (s, taken)).imp ?_
        rintro after ⟨htaken', hchain, hrest⟩ ⟨hfound, -⟩
        rw [← hfound]
        dsimp only
        rw [if_pos (show isTaken taken name = true from htaken)]
        exact ⟨htaken', hchain, List.forall_mem_cons.mpr ⟨.inr (.inr ⟨name, hfound.symm⟩), hrest⟩⟩
      · next htaken =>
        refine (hstep s _).bind fun s' => (ih (name :: seen) (s', taken.map (.text name :: ·))).imp ?_
        rintro after ⟨htaken', hchain, hrest⟩ hs' ⟨hfound, -⟩
        rw [← hfound]
        dsimp only
        rw [if_neg (show ¬ isTaken taken name = true from htaken)]
        refine ⟨htaken', .cons hs' hchain, List.forall_mem_cons.mpr ⟨?_, hrest⟩⟩
        exact .inr (.inr ⟨name, hfound.symm⟩)

/-- What is merged is read mapping after mapping, each one as a whole. -/
theorem chain_mergedEntries
    {below : Option (List Document) → List (Node × Node) → List Entry × Option (List Document)}
    {filled after : Filled σ} {nodes : List Node}
    (h : Chain (fun (filled : Filled σ) n after => ∃ line tag pairs, sheet.target n = .mapping line tag pairs ∧
      after.2 = (below filled.2 pairs).2 ∧ Chain R filled.1 (below filled.2 pairs).1 after.1)
      filled nodes after) :
    after.2 = (sheet.mergedEntries below filled.2 nodes).2 ∧
      Chain R filled.1 (sheet.mergedEntries below filled.2 nodes).1 after.1 := by
  induction h with
  | nil => exact ⟨rfl, .nil _⟩
  | cons hstep _ ih =>
    obtain ⟨line, tag, pairs, htarget, htaken, hchain⟩ := hstep
    obtain ⟨htaken', hchain'⟩ := ih
    rw [Sheet.mergedEntries, htarget]
    dsimp only
    rw [← htaken]
    exact ⟨htaken', hchain.append hchain'⟩

/-- By induction on the bound: the mappings that are merged are below it. -/
theorem ensures_readMapped (hstep : ∀ s e, Ensures sheet (r.step s e) (R s e)) (bound : Nat)
    (filled : Filled σ) (pairs : List (Node × Node)) :
    Ensures sheet (readMapped r bound filled pairs) fun after =>
      after.2 = (sheet.allEntries bound filled.2 pairs).2 ∧
        Chain R filled.1 (sheet.allEntries bound filled.2 pairs).1 after.1 ∧ sheet.HasTexts pairs := by
  induction bound generalizing filled pairs with
  | zero =>
    rw [readMapped]
    exact ensures_throw _
  | succ bound ih =>
    rw [readMapped, Sheet.allEntries]
    refine (ensures_readEntries hstep [] filled pairs).bind fun own => ?_
    obtain ⟨s, taken⟩ := own
    cases mergeValue? pairs with
    | none => exact ensures_pure fun h => h
    | some value =>
      dsimp -zeta only
      extract_lets merge
      have hmerge (known : List Document) : Ensures sheet (merge known) fun after =>
          after.2 = taken.bind (fun _ =>
            (sheet.mergedEntries (sheet.allEntries bound) (some known) (mergedNodes value)).2) ∧
          Chain R s (sheet.mergedEntries (sheet.allEntries bound) (some known) (mergedNodes value)).1
            after.1 := by
        have hbelow (filled : Filled σ) (pairs : List (Node × Node)) :=
          (ih filled pairs).imp fun after ⟨htaken, hchain, _⟩ => And.intro htaken hchain
        have hfold := ensures_foldlM (fun filled n => ensures_merge (c := filled) (hbelow filled) n)
          (s, some known) (mergedNodes value)
        refine hfold.bind fun merged => ensures_pure fun h => ?_
        obtain ⟨htaken, hchain⟩ := chain_mergedEntries h
        rw [← htaken]
        exact ⟨rfl, hchain⟩
      cases taken with
      | some known =>
        refine (hmerge known).imp ?_
        rintro after ⟨htaken, hchain⟩ ⟨hown, hfirst, htexts⟩
        rw [Sheet.withMerged, ← hown]
        exact ⟨htaken, hfirst.append hchain, htexts⟩
      | none =>
        refine (ensures_takenKeys ensures_readDocument pairs).bind fun known => (hmerge known).imp ?_
        rintro after ⟨htaken, hchain⟩ rfl ⟨hown, hfirst, htexts⟩
        rw [Sheet.withMerged, ← hown]
        exact ⟨htaken, hfirst.append hchain, htexts⟩

/-- A mapping that is read without a problem has no repeated keys and is read
    entry after entry; in its place there may be null. -/
theorem ensures_readMapping (hstep : ∀ s e, Ensures sheet (r.step s e) (R s e)) (s : σ) (n : Node) :
    Ensures sheet (readMapping r s n) fun found =>
      (∃ fields s', sheet.fields? n = some fields ∧ found = some s' ∧ Chain R s fields s' ∧
          ∀ line tag pairs, sheet.target n = .mapping line tag pairs → sheet.HasTexts pairs) ∨
        sheet.fields? n = none ∧ sheet.value? n = some .null ∧ found = none := by
  refine ensures_reach ?_
  rw [Sheet.fields?, Sheet.value?]
  generalize sheet.target n = target
  cases target with
  | scalar line tag text =>
    refine (ensures_scalarValue tag text).bind fun d => ?_
    cases d with
    | null => exact ensures_pure fun hd => .inr ⟨rfl, hd, rfl⟩
    | _ => exact (ensures_reportMismatch _ _).bind fun _ => ensures_pure fun h => h.elim
  | mapping line tag pairs =>
    refine (ensures_checkKeys pairs).bind fun ok => ?_
    split
    · refine ensures_read_bind ((ensures_readMapped hstep _ _ _).bind fun after => ?_)
      refine ensures_pure fun h _ => .inl ⟨_, _, rfl, rfl, h.2.1, ?_⟩
      rintro line tag pairs ⟨⟩
      exact h.2.2
    · next hok => exact ensures_pure fun h => absurd h.1 hok
  | _ => exact (ensures_refuse _ _).bind fun _ => ensures_pure fun h => h.elim

end Entries

section Records

variable {σ α : Type} {sheet : Sheet}

/-- Each item of a chain takes one of its steps. -/
theorem Chain.exists_step {ι : Type} {R : σ → ι → σ → Prop} {s s' : σ} {items : List ι} {i : ι}
    (h : Chain R s items s') (hi : i ∈ items) : ∃ before after, R before i after := by
  induction h with
  | nil => cases hi
  | cons hstep _ ih =>
    rcases List.mem_cons.mp hi with rfl | hi
    · exact ⟨_, _, hstep⟩
    · exact ih hi

/-- What no step changes is not changed. -/
theorem Chain.unchanged {ι β : Type} {R : σ → ι → σ → Prop} {g : σ → β} {s s' : σ} {items : List ι}
    (h : Chain R s items s') (hkeep : ∀ s s', ∀ i ∈ items, R s i s' → g s' = g s) : g s' = g s := by
  induction h with
  | nil => rfl
  | cons hstep _ ih =>
    exact (ih fun s s' j hj => hkeep s s' j (List.mem_cons_of_mem _ hj)).trans
      (hkeep _ _ _ List.mem_cons_self hstep)

/-- What only one step can change is known from that step. Either no item has
    such a step, and nothing is changed, or the first one that has decides. -/
theorem Chain.sole_step {ι β : Type} {R : σ → ι → σ → Prop} {g : σ → β} {p : ι → Bool} {s s' : σ}
    {items : List ι} (h : Chain R s items s') (hsole : items.Pairwise fun a b => p a = true → p b = false)
    (hkeep : ∀ s i s', p i = false → R s i s' → g s' = g s) :
    items.find? p = none ∧ g s' = g s ∨
      ∃ i before after, items.find? p = some i ∧ R before i after ∧ g before = g s ∧ g s' = g after := by
  induction h with
  | nil => exact .inl ⟨rfl, rfl⟩
  | @cons s s₁ s' i rest hstep hrest ih =>
    obtain ⟨hfirst, hlater⟩ := List.pairwise_cons.mp hsole
    rw [List.find?_cons]
    cases hi : p i with
    | true =>
      refine .inr ⟨i, s, s₁, rfl, hstep, rfl, hrest.unchanged fun s s' j hj => ?_⟩
      exact hkeep s j s' (hfirst j hj hi)
    | false =>
      have hsame := hkeep s i s₁ hi hstep
      obtain ⟨hnone, hg⟩ | ⟨j, before, after, hfound, hread, hbefore, hafter⟩ := ih hlater
      · exact .inl ⟨hnone, hg.trans hsame⟩
      · exact .inr ⟨j, before, after, hfound, hread, hbefore.trans hsame, hafter⟩

/-- A chain whose steps are given by a function is a fold. -/
theorem Chain.eq_foldl {ι : Type} {R : σ → ι → σ → Prop} {f : σ → ι → σ} {s s' : σ} {items : List ι}
    (h : Chain R s items s') (hf : ∀ s i s', i ∈ items → R s i s' → s' = f s i) : s' = items.foldl f s := by
  induction h with
  | nil => rfl
  | cons hstep _ ih =>
    obtain rfl := hf _ _ _ List.mem_cons_self hstep
    exact ih fun s i s' hi => hf s i s' (List.mem_cons_of_mem _ hi)

/-- What a field does to a record, if it reads something with the given
    property. -/
def Sets (V : Option α → Prop) (store : σ → α → σ) (s s' : σ) : Prop :=
  ∃ found, V found ∧ s' = found.elim s (store s)

/-- A field is read by storing what its value is read as. -/
theorem ensures_field {name : String} {read : Node → Reading (Option α)} {store : σ → α → σ}
    {n : Node} {V : Option α → Prop} (h : Ensures sheet (read n) V) (s : σ) :
    Ensures sheet ((Field.of name read store).read s n) (Sets V store s) := by
  refine h.bind fun found => ?_
  split
  · next a => exact ensures_pure fun h => ⟨some a, h, rfl⟩
  · exact ensures_pure fun h => ⟨none, h, rfl⟩

/-- What an entry does to a record: a field is set once, and another entry is
    passed over unless the record is strict. -/
def RecordStep (strict : Bool) (fields : List (Field σ)) (F : Field σ → σ → Node → σ → Prop) (s : σ)
    (entry : Entry) (s' : σ) : Prop :=
  match fields.find? (·.name == entry.name) with
  | some known => entry.again = false ∧ F known s entry.value s'
  | none => strict = false ∧ s' = s

/-- A record that is read without a problem comes from a chain of its entries,
    each of which fills a known field or, where that is allowed, is passed over. -/
theorem ensures_readRecord {typeName : String} {strict : Bool} {fields : List (Field σ)}
    {F : Field σ → σ → Node → σ → Prop}
    (h : ∀ known ∈ fields, ∀ s n, Ensures sheet (known.read s n) (F known s n)) (s : σ) (n : Node) :
    Ensures sheet (readRecord typeName strict fields s n) fun found =>
      (∃ entries s', sheet.fields? n = some entries ∧ found = some s' ∧
        Chain (RecordStep strict fields F) s entries s' ∧
        ∀ line tag pairs, sheet.target n = .mapping line tag pairs → sheet.HasTexts pairs) ∨
      sheet.fields? n = none ∧ sheet.value? n = some .null ∧ found = none := by
  refine ensures_readMapping (fun s entry => ?_) s n
  unfold RecordStep
  dsimp only
  cases hknown : fields.find? (·.name == entry.name) with
  | some known =>
    dsimp only
    split
    · exact (ensures_report _).bind fun _ => ensures_pure fun h => h.elim
    · next hagain =>
      exact (h known (List.mem_of_find?_eq_some hknown) s entry.value).imp fun s' hs' =>
        ⟨Bool.eq_false_iff.mpr hagain, hs'⟩
  | none =>
    cases strict with
    | true => exact (ensures_report _).bind fun _ => ensures_pure fun h => h.elim
    | false => exact ensures_pure ⟨rfl, rfl⟩

/-- An entry fills a known field that it is the first to fill, or is unknown and
    passed over. The latter is not possible in a strict record. -/
theorem RecordStep.cases {strict : Bool} {fields : List (Field σ)} {F : Field σ → σ → Node → σ → Prop}
    {s s' : σ} {entry : Entry} (h : RecordStep strict fields F s entry s') :
    (∃ known ∈ fields, known.name = entry.name ∧ entry.again = false ∧ F known s entry.value s') ∨
      entry.name ∉ fields.map Field.name ∧ strict = false ∧ s' = s := by
  unfold RecordStep at h
  split at h
  · next known hknown =>
    have hname := List.find?_some hknown
    exact .inl ⟨known, List.mem_of_find?_eq_some hknown, beq_iff_eq.mp hname, h⟩
  · next hnone =>
    refine .inr ⟨fun hmem => ?_, h⟩
    obtain ⟨known, hknown, hname⟩ := List.mem_map.mp hmem
    exact List.find?_eq_none.mp hnone known hknown (beq_iff_eq.mpr hname)

/-- The entries of a strict record have the names of its fields, and no name is
    given twice. Anything else would have been noted as a problem. -/
theorem exists_field_of_strict {fields : List (Field σ)} {F : Field σ → σ → Node → σ → Prop} {s s' : σ}
    {entries : List Entry} (h : Chain (RecordStep true fields F) s entries s') :
    ∀ entry ∈ entries, entry.again = false ∧ entry.name ∈ fields.map Field.name := by
  intro entry hentry
  obtain ⟨before, after, hstep⟩ := h.exists_step hentry
  obtain ⟨known, hknown, hname, hagain, -⟩ | ⟨-, hlax, -⟩ := hstep.cases
  · exact ⟨hagain, List.mem_map.mpr ⟨known, hknown, hname⟩⟩
  · cases hlax

end Records

/-- What an entry adds to texts under names. Null stands for the empty text, but
    if it is merged it leaves what is there already. -/
def assignText (sheet : Sheet) (texts : List (String × String)) (entry : Entry) : List (String × String) :=
  match sheet.text? entry.value with
  | some text => putPair texts entry.name text
  | none => if !entry.merged || (texts.lookup entry.name).isNone then putPair texts entry.name "" else texts

/-- A mapping from names to texts is read entry by entry, and the last of a name
    counts. -/
theorem ensures_readTextMap {sheet : Sheet} (n : Node) : Ensures sheet (readTextMap n) fun found =>
    found = (sheet.fields? n).map fun entries => entries.foldl (assignText sheet) [] := by
  refine Ensures.imp (ensures_readMapping (R := fun s entry s' => s' = assignText sheet s entry) ?_ _ _) ?_
  · intro s entry
    refine (ensures_readText.and ensures_readText_tag).bind fun found => ?_
    unfold assignText
    cases found with
    | some text => exact ensures_pure fun h => by rw [← h.1]
    | none =>
      refine ensures_read_bind ?_
      split
      · next hput =>
        rw [Bool.and_eq_true] at hput
        exact ensures_pure fun h => by rw [← h.1]; exact (if_pos hput.2).symm
      · next hleft =>
        refine ensures_pure fun h => ?_
        rw [← h.1]
        rw [h.2 rfl, beq_self_eq_true, Bool.true_and] at hleft
        exact (if_neg hleft).symm
  · rintro found (⟨entries, s', hfields, rfl, hchain, -⟩ | ⟨hfields, -, rfl⟩)
    · rw [hfields, Option.map_some, hchain.eq_foldl fun s entry s' _ hs' => hs']
    · rw [hfields]
      rfl

section Own

variable {sheet : Sheet} {key value : Node} {name : String} {pairs : List (Node × Node)}

private theorem exists_entry_of_pair (h : (key, value) ∈ pairs) (hmerge : key.isMerge = false)
    (hname : sheet.text? key = some name) (seen : List String) :
    ∃ entry ∈ (sheet.entries seen none pairs).1, entry.name = name ∧ entry.value = value := by
  induction pairs generalizing seen with
  | nil => cases h
  | cons pair rest ih =>
    rcases List.mem_cons.mp h with rfl | hrest
    · rw [Sheet.entries, hmerge, hname]
      exact ⟨_, List.mem_cons_self, rfl, rfl⟩
    · obtain ⟨other, value'⟩ := pair
      rw [Sheet.entries]
      split
      · exact ih hrest seen
      split
      · exact ih hrest seen
      · next name' _ =>
        obtain ⟨entry, hentry, hfound⟩ := ih hrest (name' :: seen)
        exact ⟨entry, List.mem_cons_of_mem _ hentry, hfound⟩

/-- Every key of a mapping that has a text is one of its fields, with the value
    that stands beside it. Only the merge key is none. -/
theorem exists_field_of_pair (h : (key, value) ∈ pairs) (hmerge : key.isMerge = false)
    (hname : sheet.text? key = some name) (bound : Nat) :
    ∃ entry ∈ (sheet.allEntries bound none pairs).1, entry.name = name ∧ entry.value = value := by
  obtain ⟨entry, hentry, hfound⟩ := exists_entry_of_pair h hmerge hname []
  refine ⟨entry, ?_, hfound⟩
  cases bound with
  | zero => exact hentry
  | succ bound =>
    rw [Sheet.allEntries]
    split
    · exact hentry
    · exact List.mem_append_left _ hentry

end Own

end WhilePlus.Yaml
