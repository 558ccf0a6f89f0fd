import WhilePlus.Proofs.Manifest.Reading
import WhilePlus.Proofs.Store.Rebinding
import WhilePlus.Proofs.Yaml.Distinct

namespace WhilePlus

open Yaml

section Gathering

variable {α β : Type} {k : String → String} {v : α → β} {known order declared : List (String × α)}
  {name : String}

/-- A map that entries were put into one after the other: it has every name
    once, and for every name one of the entries. -/
structure Gathers (known declared : List (String × α)) : Prop where
  nodup : (known.map Prod.fst).Nodup
  subset : known ⊆ declared
  covers : ∀ a ∈ declared, a.1 ∈ known.map Prod.fst

/-- All entries are found afterwards exactly if they agree, whatever the order
    in which the known ones are gone through. -/
theorem Gathers.found_iff (h : Gathers known declared) (hperm : order.Perm known) :
    (∀ a ∈ declared, (rebind k v order).lookup (k a.1) = some (v a.2)) ↔ Agree k v declared := by
  constructor
  · intro hfound a ha b hb hname
    have hlookup := hfound a ha
    rw [hname, hfound b hb] at hlookup
    exact (Option.some.inj hlookup).symm
  · intro hagree a ha
    obtain ⟨b, hb, hname⟩ := List.mem_map.mp (h.covers a ha)
    rw [← hname]
    obtain ⟨c, hc⟩ := exists_lookup_rebind (v := v) (k := k) (hperm.mem_iff.mpr hb)
    obtain ⟨b', hb', hsame, rfl⟩ := exists_of_lookup_rebind hc
    rw [hc, hagree b' (h.subset (hperm.mem_iff.mp hb')) a ha (hsame.trans (congrArg k hname))]

private theorem mem_putPair {pairs : List (String × α)} {a : α} {entry : String × α}
    (h : entry ∈ putPair pairs name a) : entry ∈ pairs ∨ entry = (name, a) := by
  induction pairs with
  | nil => exact .inr (List.mem_singleton.mp h)
  | cons head rest ih =>
    obtain ⟨other, b⟩ := head
    rw [putPair] at h
    split at h
    · exact (List.mem_cons.mp h).symm.imp_left (List.mem_cons_of_mem _)
    · rcases List.mem_cons.mp h with rfl | h
      · exact .inl List.mem_cons_self
      · exact (ih h).imp_left (List.mem_cons_of_mem _)

private theorem mem_names_putPair {pairs : List (String × α)} {a : α} {other : String} :
    other ∈ (putPair pairs name a).map Prod.fst ↔ other ∈ pairs.map Prod.fst ∨ other = name := by
  induction pairs with
  | nil => simp [putPair]
  | cons head rest ih =>
    obtain ⟨first, b⟩ := head
    rw [putPair]
    split
    · next hname =>
      rw [beq_iff_eq] at hname
      grind
    · simp only [List.map_cons, List.mem_cons, ih, or_assoc]

private theorem nodup_putPair {pairs : List (String × α)} {a : α} (h : (pairs.map Prod.fst).Nodup) :
    ((putPair pairs name a).map Prod.fst).Nodup := by
  induction pairs with
  | nil => simp [putPair]
  | cons head rest ih =>
    obtain ⟨other, b⟩ := head
    obtain ⟨hfresh, hrest⟩ := List.nodup_cons.mp h
    rw [putPair]
    split
    · next hname =>
      rw [beq_iff_eq] at hname
      exact List.nodup_cons.mpr ⟨hname ▸ hfresh, hrest⟩
    · next hname =>
      rw [beq_iff_eq] at hname
      refine List.nodup_cons.mpr ⟨fun hmem => ?_, ih hrest⟩
      exact (mem_names_putPair.mp hmem).elim hfresh hname

private theorem Gathers.nil : Gathers ([] : List (String × α)) [] :=
  ⟨.nil, List.Subset.refl [], nofun⟩

private theorem Gathers.put (h : Gathers known declared) (name : String) (a : α) :
    Gathers (putPair known name a) (declared ++ [(name, a)]) where
  nodup := nodup_putPair h.nodup
  subset := fun _ hentry => (mem_putPair hentry).elim
    (fun hmem => List.mem_append_left _ (h.subset hmem))
    (fun heq => List.mem_append_right _ (List.mem_singleton.mpr heq))
  covers := List.forall_mem_append.mpr ⟨fun b hb => mem_names_putPair.mpr (.inl (h.covers b hb)),
    List.forall_mem_singleton.mpr (mem_names_putPair.mpr (.inr rfl))⟩

/-- An entry can be left out whose name is there already, since a map keeps one
    entry for each name. -/
theorem Gathers.skip (h : Gathers known declared) {a : String × α} (ha : a.1 ∈ known.map Prod.fst) :
    Gathers known (declared ++ [a]) where
  nodup := h.nodup
  subset := List.Subset.trans h.subset (List.subset_append_left _ _)
  covers := List.forall_mem_append.mpr ⟨h.covers, List.forall_mem_singleton.mpr ha⟩

private theorem lookup_putPair (pairs : List (String × α)) (name other : String) (a : α) :
    (putPair pairs name a).lookup other = if other = name then some a else pairs.lookup other := by
  induction pairs with
  | nil => grind [putPair]
  | cons head rest ih => grind [putPair]

/-- Of pairs with one name the last one is kept. -/
theorem lookup_foldl_putPair (declared : List (String × α)) (name : String) :
    (declared.foldl (fun known a => putPair known a.1 a.2) []).lookup name = declared.reverse.lookup name := by
  induction declared using List.reverseRecOn with
  | nil => rfl
  | append_singleton declared a ih =>
    rw [List.foldl_append, List.foldl_cons, List.foldl_nil, lookup_putPair, ih, List.reverse_append,
      List.reverse_singleton, List.singleton_append, List.lookup_cons]
    by_cases hname : name = a.1
    · rw [if_pos hname, beq_iff_eq.mpr hname]
    · rw [if_neg hname, beq_false_of_ne hname]

private theorem gathers_foldl_putPair (declared : List (String × α)) :
    Gathers (declared.foldl (fun known a => putPair known a.1 a.2) []) declared := by
  induction declared using List.reverseRecOn with
  | nil => exact .nil
  | append_singleton declared a ih =>
    rw [List.foldl_append]
    exact ih.put a.1 a.2

/-- The text that an entry declares; null stands for the empty one. -/
def declaredText (sheet : Sheet) (entry : Yaml.Entry) : String × String :=
  (entry.name, (sheet.text? entry.value).getD "")

private theorem gathers_foldl_assignText (sheet : Sheet) (entries : List Yaml.Entry) :
    Gathers (entries.foldl (assignText sheet) []) (entries.map (declaredText sheet)) := by
  induction entries using List.reverseRecOn with
  | nil => exact .nil
  | append_singleton entries entry ih =>
    rw [List.foldl_append, List.map_append, List.map_singleton, List.foldl_cons, List.foldl_nil,
      assignText, declaredText]
    cases sheet.text? entry.value with
    | some text => exact ih.put entry.name text
    | none =>
      dsimp only
      split
      · exact ih.put entry.name ""
      · next hkept =>
        rw [Bool.or_eq_true, not_or, Bool.not_eq_true (Option.isNone _), Option.isNone_eq_false_iff,
          List.lookup_isSome_iff] at hkept
        obtain ⟨-, found, hfound, hname⟩ := hkept
        exact ih.skip (List.mem_map.mpr ⟨found, hfound, (beq_iff_eq.mp hname).symm⟩)

end Gathering

namespace ManifestFile

section Declared

variable {sheet : Sheet} {fields : List (Yaml.Field ManifestFile)} {entries : List Yaml.Entry}
  {file : ManifestFile}

/-- The entries of the programs that a document declares. -/
def programEntries (sheet : Sheet) : List Yaml.Entry :=
  ((sheet.member? "programs" sheet.root).bind sheet.fields?).getD []

/-- The programs that a document declares, repeated ones included, as they are
    written. -/
def declaredPrograms (sheet : Sheet) : List (String × String) :=
  (programEntries sheet).map (declaredText sheet)

/-- The suites that a node declares, repeated ones included. Their names are as
    they are read, which is without white space around them unless the node is
    tagged as null. -/
def suitesAt (sheet : Sheet) (n : Yaml.Node) : List (String × Option SuiteSpec) :=
  if sheet.tag n == nullTag then ((sheet.fields? n).map (taggedSuites sheet)).getD []
  else
    match sheet.target n with
    | .mapping _ _ pairs => suitesOf sheet pairs
    | _ => []

/-- The suites that a document declares. -/
def declaredSuites (sheet : Sheet) : List (String × Option SuiteSpec) :=
  ((sheet.member? "suites" sheet.root).map (suitesAt sheet)).getD []

private theorem member?_root (h : FileRead sheet fields entries file) (name : String) :
    sheet.member? name sheet.root = (entries.find? (·.name == name)).map (·.value) := by
  rw [Sheet.member?, h.entries_eq]
  rfl

/-- A part of a manifest is known from the one field that it is read from. If no
    such member is there, the part is as in the empty manifest. The premise on
    the other fields says that they keep the part. -/
theorem part_of_fileRead {β : Type} (h : FileRead sheet fields entries file) (name : String)
    (hword : IsWord name) {g : ManifestFile → β}
    (hkeep : ∀ field f n f', field.name ≠ name → FileField sheet field f n f' → g f' = g f) :
    sheet.member? name sheet.root = none ∧ g file = g {} ∨
      ∃ n field before after, sheet.member? name sheet.root = some n ∧ field.name = name ∧
        FileField sheet field before n after ∧ g before = g {} ∧ g file = g after := by
  have hsole : entries.Pairwise fun a b => (a.name == name) = true → (b.name == name) = false := by
    obtain ⟨line, tag, pairs, htarget, rfl⟩ := exists_pairs_of_fields? h.entries_eq
    refine (distinct_words sheet.bound pairs fun e he => ?_).imp fun {a b} hne ha => ?_
    · exact (exists_field_of_strict h.chain e he).1
    · rw [beq_iff_eq] at ha
      exact beq_false_of_ne fun hb => hne (ha ▸ hword) (ha.trans hb.symm)
  have hstep (f : ManifestFile) (e : Yaml.Entry) (f' : ManifestFile) (hother : (e.name == name) = false)
      (hread : RecordStep true fields (FileField sheet) f e f') : g f' = g f := by
    obtain ⟨field, -, hfield, -, hread⟩ | ⟨-, -, rfl⟩ := hread.cases
    · exact hkeep field f e.value f' (hfield ▸ ne_of_beq_false hother) hread
    · rfl
  rw [member?_root h]
  obtain ⟨hnone, hg⟩ | ⟨e, before, after, hfound, hread, hbefore, hafter⟩ := h.chain.sole_step hsole hstep
  · exact .inl ⟨by rw [hnone]; rfl, hg⟩
  · have hname := List.find?_some hfound
    obtain ⟨field, -, hfield, -, hread⟩ | ⟨-, hlax, -⟩ := hread.cases
    · exact .inr ⟨e.value, field, before, after, by rw [hfound]; rfl, hfield.trans (beq_iff_eq.mp hname), hread,
        hbefore, hafter⟩
    · cases hlax

private theorem programs_of_fileField {field : Yaml.Field ManifestFile} {f f' : ManifestFile} {n : Yaml.Node}
    (hname : field.name ≠ "programs") (h : FileField sheet field f n f') : f'.programs = f.programs := by
  unfold FileField at h
  split at h
  case h_1 =>
    rw [h]
    cases sheet.text? n <;> rfl
  case h_2 hprograms => exact absurd hprograms hname
  case h_3 =>
    obtain ⟨found, -, rfl⟩ := h
    cases found <;> rfl
  case h_4 =>
    obtain ⟨⟨maxSteps, rfl⟩, -⟩ := h
    rfl
  case h_5 => exact h.elim

private theorem suites_of_fileField {field : Yaml.Field ManifestFile} {f f' : ManifestFile} {n : Yaml.Node}
    (hname : field.name ≠ "suites") (h : FileField sheet field f n f') : f'.suites = f.suites := by
  unfold FileField at h
  split at h
  case h_1 =>
    rw [h]
    cases sheet.text? n <;> rfl
  case h_2 =>
    rw [h]
    cases sheet.fields? n <;> rfl
  case h_3 hsuites => exact absurd hsuites hname
  case h_4 =>
    obtain ⟨⟨maxSteps, rfl⟩, -⟩ := h
    rfl
  case h_5 => exact h.elim

private theorem gathers_programs (h : FileRead sheet fields entries file) :
    Gathers file.programs (declaredPrograms sheet) := by
  have hprograms : file.programs = (programEntries sheet).foldl (assignText sheet) [] := by
    rw [programEntries]
    obtain ⟨hnone, hfile⟩ | ⟨n, field, before, after, hn, hname, hread, hbefore, hfile⟩ :=
      part_of_fileRead h "programs" (by rintro (_ | _) <;> rfl) fun _ _ _ _ => programs_of_fileField
    · rw [hfile, hnone]
      rfl
    · rw [FileField, hname] at hread
      rw [hfile, hn, Option.bind_some, hread]
      cases sheet.fields? n with
      | none => exact hbefore
      | some inner => rfl
  rw [hprograms]
  exact gathers_foldl_assignText sheet _

/-- What suites are read as has been put together from those that are declared,
    one after the other. -/
theorem SuitesRead.eq_foldl {n : Yaml.Node} {found : Option (List (String × Option SuiteSpec))}
    (h : SuitesRead sheet n found) :
    found.getD [] = (suitesAt sheet n).foldl (fun known s => putPair known s.1 s.2) [] := by
  cases h with
  | unset htag hnull =>
    have hfields : sheet.fields? n = none := by
      cases hfields : sheet.fields? n with
      | none => rfl
      | some inner =>
        rw [value?_of_fields? hfields] at hnull
        cases hnull
    rw [suitesAt, htag, hfields]
    rfl
  | tagged htag hfields =>
    rw [suitesAt, htag, hfields]
    rfl
  | plain htag htarget =>
    rw [suitesAt, beq_false_of_ne htag, htarget]
    rfl

private theorem suites_of_fileRead (h : FileRead sheet fields entries file) :
    file.suites = (declaredSuites sheet).foldl (fun known s => putPair known s.1 s.2) [] := by
  rw [declaredSuites]
  obtain ⟨hnone, hfile⟩ | ⟨n, field, before, after, hn, hname, hread, hbefore, hfile⟩ :=
    part_of_fileRead h "suites" (by rintro (_ | _) <;> rfl) fun _ _ _ _ => suites_of_fileField
  · rw [hfile, hnone]
    rfl
  · rw [FileField, hname] at hread
    obtain ⟨found, hsuites, rfl⟩ := hread
    rw [hfile, hn]
    refine Eq.trans ?_ hsuites.eq_foldl
    cases found with
    | none => exact hbefore
    | some suites => rfl

end Declared

end ManifestFile

namespace Manifest

open ManifestFile

section Loading

variable {d : Disk} {path : String} {m : Manifest}

/-- Whether everything that a document declares is found in a manifest: the
    programs under their names without white space, and the suites under their
    names. -/
structure Holds (m : Manifest) (sheet : Sheet) : Prop where
  programs : ∀ p ∈ declaredPrograms sheet, m.programs.lookup (Text.trim p.1) = some (Text.trim p.2)
  suites : ∀ s ∈ declaredSuites sheet, m.suites.lookup s.1 = some (s.2.map SuiteSpec.trimmed)

/-- What becomes of the declarations of a document, in whichever order the maps
    are gone through that they were put into. -/
structure DeclarationsKept (sheet : Sheet) (file : ManifestFile) (path : String) : Prop where
  programs_gathered : Gathers file.programs (declaredPrograms sheet)
  suites_gathered : Gathers file.suites (declaredSuites sheet)
  /-- Of suites with one name the last one is kept. -/
  suites_last : ∀ programs suites, suites.Perm file.suites → ∀ name,
    ({ file with programs, suites }.toManifest path).suites.lookup name =
      ((declaredSuites sheet).reverse.lookup name).map (Option.map SuiteSpec.trimmed)
  /-- All of them are found exactly if those with one name in the end agree. -/
  holds_iff : ∀ programs suites, programs.Perm file.programs → suites.Perm file.suites →
    (({ file with programs, suites }.toManifest path).Holds sheet ↔
      Agree Text.trim Text.trim (declaredPrograms sheet) ∧
        Agree id (Option.map SuiteSpec.trimmed) (declaredSuites sheet))
  /-- The order makes no difference exactly if programs with one name without
      white space agree. -/
  unordered_iff :
    (∀ programs suites, programs.Perm file.programs → suites.Perm file.suites →
      { file with programs, suites }.toManifest path = file.toManifest path) ↔
    Agree Text.trim Text.trim file.programs

private theorem rebind_suites {file : ManifestFile} {suites : List (String × Option SuiteSpec)}
    (h : (file.suites.map Prod.fst).Nodup) (hperm : suites.Perm file.suites) :
    rebind id (Option.map SuiteSpec.trimmed) suites = rebind id (Option.map SuiteSpec.trimmed) file.suites :=
  rebind_perm_iff.mpr (agree_of_nodup h) suites hperm

private theorem declarationsKept_of_fileRead {sheet : Sheet} {fields : List (Yaml.Field ManifestFile)}
    {entries : List Yaml.Entry} {file : ManifestFile} (h : FileRead sheet fields entries file) (path : String) :
    DeclarationsKept sheet file path := by
  have hprograms := gathers_programs h
  have hsuites : Gathers file.suites (declaredSuites sheet) := by
    rw [suites_of_fileRead h]
    exact gathers_foldl_putPair _
  constructor
  case programs_gathered => exact hprograms
  case suites_gathered => exact hsuites
  case suites_last =>
    intro programs suites hperm name
    rw [← lookup_foldl_putPair, ← suites_of_fileRead h, ← lookup_rebind_of_nodup hsuites.nodup,
      ← rebind_suites hsuites.nodup hperm]
    rfl
  case holds_iff =>
    intro programs suites hp hs
    rw [← hprograms.found_iff hp, ← hsuites.found_iff hs]
    exact ⟨fun h => ⟨h.programs, h.suites⟩, fun h => ⟨h.1, h.2⟩⟩
  case unordered_iff =>
    constructor
    · intro hsame
      refine rebind_perm_iff.mp fun order hperm => ?_
      exact congrArg Manifest.programs (hsame order file.suites hperm (.refl _))
    · intro hagree programs suites hp hs
      exact congrArg₂ (fun programs suites => (⟨path, Text.trim file.name, programs, suites, file.maxSteps⟩ :
        Manifest)) (rebind_perm_iff.mpr hagree programs hp) (rebind_suites hsuites.nodup hs)

/-- Nothing that an accepted manifest declares is lost, and it does not depend
    on the order of maps, exactly as long as what has one name in the end is
    declared with one value. -/
theorem declarationsKept_of_load (h : load d path = .ok m) :
    ∃ content sheet file, d.find (d.absolute path) = .ok (.file content) ∧
      Yaml.read? content = some (some sheet) ∧ m = file.toManifest (d.absolute path) ∧
      DeclarationsKept sheet file (d.absolute path) := by
  obtain ⟨content, sheet, fields, entries, file, hfound, hread, hfile, hm⟩ := fileRead_of_load h
  exact ⟨content, sheet, file, hfound, hread, hm,
    declarationsKept_of_fileRead hfile _⟩

/-- A manifest with a program and a suite. -/
def paired : String :=
  "name: demo\nprograms:\n  p : a.json\nsuites:\n  s: t\n"

/-- The program and the suite are both kept, the program without the white space
    after its name. -/
theorem declarationsKept_of_load_paired :
    load (diskOf paired) fileName =
        .ok ⟨"/whileplus.yml", "demo", [("p", "a.json")], [("s", some { path := "t" })], 0⟩ ∧
      ∃ content sheet file, (diskOf paired).find "/whileplus.yml" = .ok (.file content) ∧
        Yaml.read? content = some (some sheet) ∧
        ⟨"/whileplus.yml", "demo", [("p", "a.json")], [("s", some { path := "t" })], 0⟩ =
          file.toManifest "/whileplus.yml" ∧
        DeclarationsKept sheet file "/whileplus.yml" := by
  have h : load (diskOf paired) fileName =
      .ok ⟨"/whileplus.yml", "demo", [("p", "a.json")], [("s", some { path := "t" })], 0⟩ := by
    decide +kernel
  exact ⟨h, declarationsKept_of_load h⟩

-- two programs that differ in white space: the last one in the order wins
example :
    let file : ManifestFile := { name := "demo", programs := [("p", "a.json"), ("p ", "b.json")] }
    (file.toManifest "/whileplus.yml").programs = [("p", "b.json")] ∧
      ({ file with programs := file.programs.reverse }.toManifest "/whileplus.yml").programs =
        [("p", "a.json")] := by
  decide +kernel

end Loading

section Repeated

/-- A manifest that declares a suite twice. -/
def repeated : String :=
  "name: demo\nsuites:\n  a: x\n  a: y\n"

/-- A suite that is declared twice is loaded as the second one, and nothing is
    reported. -/
theorem load_repeated :
    load (diskOf repeated) fileName =
        .ok ⟨"/whileplus.yml", "demo", [], [("a", some { path := "y" })], 0⟩ ∧
      ∃ sheet, Yaml.read? (Text.toBytes repeated) = some (some sheet) ∧
        declaredSuites sheet = [("a", some { path := "x" }), ("a", some { path := "y" })] ∧
        ¬ Holds ⟨"/whileplus.yml", "demo", [], [("a", some { path := "y" })], 0⟩ sheet := by
  refine ⟨by decide +kernel, ?_⟩
  have h : ((Yaml.read? (Text.toBytes repeated)).bind fun doc => doc.map declaredSuites) =
      some [("a", some { path := "x" }), ("a", some { path := "y" })] := by
    decide +kernel
  obtain ⟨doc, hread, hdoc⟩ := Option.bind_eq_some_iff.mp h
  obtain ⟨sheet, rfl, hsuites⟩ := Option.map_eq_some_iff.mp hdoc
  refine ⟨sheet, hread, hsuites, fun hholds => ?_⟩
  have hfound := hholds.suites ("a", some { path := "x" }) (by rw [hsuites]; exact List.mem_cons_self)
  exact absurd hfound (by decide)

end Repeated

end Manifest

end WhilePlus
