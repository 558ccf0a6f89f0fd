import WhilePlus.Proofs.Lockfile.Order
import WhilePlus.Proofs.Manifest.Load
import WhilePlus.Proofs.Yaml.Mapping

namespace WhilePlus

open Yaml

/-- The suite with a part of it set, if there is one of that name. -/
def SuiteSpec.withField (spec : SuiteSpec) (name text : String) : SuiteSpec :=
  match name with
  | "path" => { spec with path := text }
  | "git" => { spec with git := text }
  | "rev" => { spec with rev := text }
  | "tag" => { spec with tag := text }
  | "branch" => { spec with branch := text }
  | "dir" => { spec with dir := text }
  | _ => spec

/-- The names of the parts of a suite. -/
def SuiteSpec.fieldNames : List String :=
  ["path", "git", "rev", "tag", "branch", "dir"]

/-- Whether a mapping has only fields with the given names, merged ones
    included, and of its own keys each is such a name, or null, or the key that
    merges mappings. -/
structure Yaml.Sheet.OnlyFields (sheet : Sheet) (names : List String) (n : Yaml.Node) : Prop where
  fields : ∀ entries, sheet.fields? n = some entries → ∀ e ∈ entries, e.name ∈ names
  keys : ∀ line tag pairs, sheet.target n = .mapping line tag pairs → ∀ pair ∈ pairs,
    pair.1.isMerge = true ∨ sheet.tag pair.1 = nullTag ∨ ∃ name ∈ names, sheet.text? pair.1 = some name

/-- A mapping has no other fields than some, if each of its entries has one of
    their names and all its keys are texts. What is merged counts among the
    entries. -/
theorem onlyFields_of_fields {sheet : Sheet} {names : List String} {n : Yaml.Node}
    (h : ∀ entries, sheet.fields? n = some entries → ∀ e ∈ entries, e.name ∈ names)
    (htexts : ∀ line tag pairs, sheet.target n = .mapping line tag pairs → sheet.HasTexts pairs) :
    sheet.OnlyFields names n := by
  refine ⟨h, fun line tag pairs htarget pair hpair => ?_⟩
  cases hmerge : pair.1.isMerge with
  | true => exact .inl rfl
  | false =>
    refine (htexts line tag pairs htarget pair hpair).imp (fun h => hmerge.symm.trans h) (.imp_right ?_)
    rintro ⟨name, hname⟩
    obtain ⟨entry, hentry, rfl, -⟩ := exists_field_of_pair hpair hmerge hname sheet.bound
    refine ⟨entry.name, h _ ?_ entry hentry, hname⟩
    rw [Sheet.fields?, htarget]

private theorem onlyFields_of_none {sheet : Sheet} {names : List String} {n : Yaml.Node}
    (h : sheet.fields? n = none) : sheet.OnlyFields names n := by
  refine onlyFields_of_fields (fun entries hentries => ?_) fun line tag pairs htarget => ?_
  · rw [h] at hentries
    cases hentries
  · rw [Sheet.fields?, htarget] at h
    cases h

/-- The value of the first field of a name. -/
def Yaml.Sheet.member? (sheet : Sheet) (name : String) (n : Yaml.Node) : Option Yaml.Node :=
  (sheet.fields? n).bind fun fields => (fields.find? (·.name == name)).map (·.value)

namespace ManifestFile

/-- The suite that the fields of a mapping make up. -/
def specOf (sheet : Sheet) (fields : List Yaml.Entry) : SuiteSpec :=
  fields.foldl (fun spec f => (sheet.text? f.value).elim spec (spec.withField f.name)) {}

section Specs

variable {sheet : Sheet} {n : Yaml.Node}

private theorem withField_of_not_mem {spec : SuiteSpec} {name text : String} (h : name ∉ SuiteSpec.fieldNames) :
    spec.withField name text = spec := by
  unfold SuiteSpec.withField
  split
  case h_7 => rfl
  all_goals exact absurd (by decide) h

/-- Fields with other names are passed over. -/
theorem specOf_filter (fields : List Yaml.Entry) :
    specOf sheet (fields.filter (·.name ∈ SuiteSpec.fieldNames)) = specOf sheet fields := by
  unfold specOf
  generalize ({} : SuiteSpec) = spec
  induction fields generalizing spec with
  | nil => rfl
  | cons f rest ih =>
    rw [List.filter_cons]
    split
    · exact ih _
    · next hname =>
      rw [ih, List.foldl_cons]
      congr 1
      cases sheet.text? f.value with
      | none => rfl
      | some text => exact (withField_of_not_mem (by simpa using hname)).symm

/-- What a field of a suite does to it. -/
def SpecField (sheet : Sheet) (field : Yaml.Field SuiteSpec) (spec : SuiteSpec) (n : Yaml.Node)
    (spec' : SuiteSpec) : Prop :=
  spec' = (sheet.text? n).elim spec (spec.withField field.name)

private theorem specField_of_text {name : String} {store : SuiteSpec → String → SuiteSpec}
    (hstore : ∀ s, store s = s.withField name) (s : SuiteSpec) (n : Yaml.Node) :
    Ensures sheet ((Yaml.Field.of name readText store).read s n) (SpecField sheet (.of name readText store) s n) := by
  refine (ensures_field ensures_readText s).imp ?_
  rintro s' ⟨found, rfl, hs'⟩
  rw [hs', hstore]
  rfl

private theorem ensures_readSpec (strict : Bool) : Ensures sheet (readSpec strict n) fun found =>
    (∃ fields, sheet.fields? n = some fields ∧ found = some (specOf sheet fields) ∧
      (strict = true → sheet.OnlyFields SuiteSpec.fieldNames n)) ∨
    sheet.fields? n = none ∧ sheet.value? n = some .null ∧ found = none := by
  unfold readSpec
  refine Ensures.imp (ensures_readRecord (F := SpecField sheet) ?_ _ _) ?_
  · simp only [List.forall_mem_cons]
    exact ⟨specField_of_text fun _ => rfl, specField_of_text fun _ => rfl,
      specField_of_text fun _ => rfl, specField_of_text fun _ => rfl, specField_of_text fun _ => rfl,
      specField_of_text fun _ => rfl, nofun⟩
  · rintro found (⟨entries, s', hfields, rfl, hchain, htexts⟩ | hnull)
    · refine .inl ⟨entries, hfields, congrArg some (hchain.eq_foldl ?_), ?_⟩
      · intro s entry s' _ hstep
        obtain ⟨known, -, hname, -, hs'⟩ | ⟨hname, -, rfl⟩ := hstep.cases
        · rw [← hname]
          exact hs'
        · cases sheet.text? entry.value with
          | none => rfl
          | some text => exact (withField_of_not_mem hname).symm
      · rintro rfl
        refine onlyFields_of_fields (fun inner hinner f hf => ?_) htexts
        obtain rfl := Option.some.inj (hfields.symm.trans hinner)
        exact (exists_field_of_strict hchain f hf).2
    · exact .inr hnull

end Specs

section Suites

variable {sheet : Sheet} {n : Yaml.Node}

/-- The suite that an ordinary entry declares: a text is a path, and of a
    mapping the fields count. -/
def suiteOf (sheet : Sheet) : Yaml.Node → SuiteSpec
  | .scalar _ _ text => { path := Text.trim text }
  | n => ((sheet.fields? n).map (specOf sheet)).getD {}

private theorem readSuite_eq_ok {name : String} {spec : SuiteSpec} (h : readSuite sheet name n = .ok spec) :
    spec = suiteOf sheet n := by
  cases n with
  | scalar line tag text => exact (Except.ok.inj h).symm
  | mapping line tag pairs =>
    have hread : Ensures sheet ((·.getD {}) <$> readSpec false (.mapping line tag pairs))
        fun spec => spec = suiteOf sheet (.mapping line tag pairs) := by
      refine (ensures_readSpec false).map fun found hfound => ?_
      obtain ⟨fields, hfields, rfl, -⟩ | ⟨hfields, -⟩ := hfound
      · rw [suiteOf, hfields]
        · rfl
        · nofun
      · cases hfields
    exact hread.of_run (within_eq_ok_iff.mp h)
  | sequence | reference => cases h

/-- A suite that was read from a mapping is made of the entries of that mapping. -/
theorem suiteOf_of_fields? {name : String} {fields : List Yaml.Entry}
    (h : readSuite sheet name n = .ok (suiteOf sheet n)) (hfields : sheet.fields? n = some fields) :
    suiteOf sheet n = specOf sheet fields := by
  cases n with
  | mapping line tag pairs => rw [suiteOf, hfields]; rfl; nofun
  | scalar => cases hfields
  | sequence | reference => cases h

/-- The suites that the entries of an ordinary mapping declare, their names
    without white space. -/
def suitesOf (sheet : Sheet) (pairs : List (Yaml.Node × Yaml.Node)) : List (String × Option SuiteSpec) :=
  pairs.map fun p => (Text.trim ((sheet.text? p.1).getD ""), some (suiteOf sheet p.2))

/-- The suites are read one after the other, each on its own; nothing keeps two
    of them from having one name. -/
theorem ensures_readSuitePairs (suites : List (String × Option SuiteSpec))
    (pairs : List (Yaml.Node × Yaml.Node)) : Ensures sheet (readSuitePairs suites pairs) fun found =>
      found = some ((suitesOf sheet pairs).foldl (fun known s => putPair known s.1 s.2) suites) ∧
        ∀ p ∈ pairs, ∃ name, sheet.text? p.1 = some name ∧
          readSuite sheet (Text.trim name) p.2 = .ok (suiteOf sheet p.2) := by
  induction pairs generalizing suites with
  | nil => exact ensures_pure ⟨rfl, nofun⟩
  | cons pair rest ih =>
    obtain ⟨key, value⟩ := pair
    rw [readSuitePairs]
    refine ensures_read_bind ?_
    split
    · next context problems hrun =>
      have hne := (throws_readScalar _ _ key).ne_nil_of_run hrun
      refine Ensures.bind (P := fun _ => False) (ensures_modify fun t h => ?_) fun _ => ?_
      · exact absurd (List.append_eq_nil_iff.mp h).2 hne
      · exact ensures_pure fun h => h.elim
    · exact ensures_throw _
    · next name hrun =>
      obtain rfl := ensures_readText.of_run hrun
      dsimp only
      split
      · exact ensures_throw _
      · next hfilled =>
        split
        · next spec hspec =>
          obtain rfl := readSuite_eq_ok hspec
          refine (ih _).imp ?_
          rintro found ⟨rfl, hrest⟩
          refine ⟨rfl, List.forall_mem_cons.mpr ⟨?_, hrest⟩⟩
          cases htext : sheet.text? key with
          | none =>
            rw [htext] at hfilled
            exact absurd rfl hfilled
          | some name =>
            rw [htext] at hspec
            exact ⟨name, rfl, hspec⟩
        · exact ensures_throw _

/-- The suite that an entry of a mapping declares that is tagged as null. -/
def taggedSuite? (sheet : Sheet) (n : Yaml.Node) : Option SuiteSpec :=
  if sheet.tag n == nullTag then none else (sheet.fields? n).map (specOf sheet)

/-- The suites that the fields of a mapping declare that is tagged as null. -/
def taggedSuites (sheet : Sheet) (fields : List Yaml.Entry) : List (String × Option SuiteSpec) :=
  fields.map fun f => (f.name, taggedSuite? sheet f.value)

private theorem ensures_readOptionalSpec (n : Yaml.Node) :
    Ensures sheet (readOptional "driver.SuiteSpec" (readSpec true) n) fun found =>
      found = taggedSuite? sheet n ∧ sheet.OnlyFields SuiteSpec.fieldNames n := by
  refine ensures_read_bind ?_
  unfold taggedSuite?
  split
  · refine (ensures_readScalar _ _).imp ?_
    rintro found ⟨line, tag, text, d, htarget, -, hfound⟩
    refine ⟨?_, onlyFields_of_none (by rw [Sheet.fields?, htarget])⟩
    obtain ⟨-, hnone⟩ | ⟨-, hsome, hnone⟩ := hfound
    · exact hnone
    · rw [hnone] at hsome
      cases hsome
  · refine (ensures_readSpec true).imp ?_
    rintro found (⟨fields, hfields, rfl, honly⟩ | ⟨hfields, -, rfl⟩)
    · rw [hfields]
      exact ⟨rfl, honly rfl⟩
    · rw [hfields]
      exact ⟨rfl, onlyFields_of_none hfields⟩

/-- What suites are read as: nothing from null, and otherwise what their entries
    declare, one after the other. -/
inductive SuitesRead (sheet : Sheet) (n : Yaml.Node) : Option (List (String × Option SuiteSpec)) → Prop where
  | unset (htag : sheet.tag n = nullTag) (hnull : sheet.value? n = some .null) : SuitesRead sheet n none
  | tagged {fields : List Yaml.Entry} (htag : sheet.tag n = nullTag) (hfields : sheet.fields? n = some fields)
      (honly : ∀ f ∈ fields, sheet.OnlyFields SuiteSpec.fieldNames f.value) :
      SuitesRead sheet n
        (some ((taggedSuites sheet fields).foldl (fun known s => putPair known s.1 s.2) []))
  | plain {line : Nat} {tag : String} {pairs : List (Yaml.Node × Yaml.Node)} (htag : sheet.tag n ≠ nullTag)
      (htarget : sheet.target n = .mapping line tag pairs)
      (hread : ∀ p ∈ pairs, ∃ name, sheet.text? p.1 = some name ∧
        readSuite sheet (Text.trim name) p.2 = .ok (suiteOf sheet p.2)) :
      SuitesRead sheet n (some ((suitesOf sheet pairs).foldl (fun known s => putPair known s.1 s.2) []))

private theorem ensures_readTaggedSuites (htag : sheet.tag n = nullTag) :
    Ensures sheet (readTaggedSuites n) (SuitesRead sheet n) := by
  refine Ensures.imp (ensures_readMapping (R := fun s f s' => s' = putPair s f.name (taggedSuite? sheet f.value) ∧
    sheet.OnlyFields SuiteSpec.fieldNames f.value) ?_ _ _) ?_
  · intro s f
    exact (ensures_readOptionalSpec f.value).bind fun spec =>
      ensures_pure fun ⟨hspec, honly⟩ => ⟨by rw [hspec], honly⟩
  · rintro found (⟨fields, s', hfields, rfl, hchain, -⟩ | ⟨-, hnull, rfl⟩)
    · have hfold := hchain.eq_foldl (f := fun s f => putPair s f.name (taggedSuite? sheet f.value))
        fun s f s' _ hs' => hs'.1
      have htagged := SuitesRead.tagged htag hfields fun f hf => by
        obtain ⟨before, after, hstep⟩ := hchain.exists_step hf
        exact hstep.2
      rw [taggedSuites, List.foldl_map] at htagged
      rw [hfold]
      exact htagged
    · exact .unset htag hnull

private theorem ensures_readSuites : Ensures sheet (readSuites n) (SuitesRead sheet n) := by
  refine ensures_read_bind ?_
  split
  · next htag => exact ensures_readTaggedSuites (beq_iff_eq.mp htag)
  · next htag =>
    refine ensures_reach ?_
    cases htarget : sheet.target n with
    | mapping line tag pairs =>
      refine (ensures_readSuitePairs [] pairs).imp ?_
      rintro found ⟨rfl, hread⟩
      exact .plain (fun h => htag (beq_iff_eq.mpr h)) htarget hread
    | _ => exact ensures_throw _

end Suites

section Files

variable {sheet : Sheet} {n : Yaml.Node} {file : ManifestFile}

/-- The names of the parts of a manifest. -/
def fieldNames : List String :=
  ["name", "programs", "suites", "limits"]

private theorem ensures_readLimits : Ensures sheet (readLimits n) fun _ => sheet.OnlyFields ["max_steps"] n := by
  unfold readLimits
  refine Ensures.imp (ensures_readRecord (F := fun _ _ _ _ => True) ?_ _ _) ?_
  · refine List.forall_mem_singleton.mpr fun s n => ?_
    exact (ensures_field (ensures_readScalar _ _) s).imp fun _ _ => trivial
  · rintro found (⟨entries, s', hfields, -, hchain, htexts⟩ | ⟨hfields, -, -⟩)
    · refine onlyFields_of_fields (fun inner hinner e he => ?_) htexts
      obtain rfl := Option.some.inj (hfields.symm.trans hinner)
      exact (exists_field_of_strict hchain e he).2
    · exact onlyFields_of_none hfields

/-- What a field of a manifest does to it. -/
def FileField (sheet : Sheet) (field : Yaml.Field ManifestFile) (f : ManifestFile) (n : Yaml.Node)
    (f' : ManifestFile) : Prop :=
  match field.name with
  | "name" => f' = (sheet.text? n).elim f fun text => { f with name := text }
  | "programs" => f' = (sheet.fields? n).elim f fun entries =>
      { f with programs := entries.foldl (assignText sheet) [] }
  | "suites" => Sets (SuitesRead sheet n) (fun f suites => { f with suites }) f f'
  | "limits" => (∃ maxSteps, f' = { f with maxSteps }) ∧ sheet.OnlyFields ["max_steps"] n
  | _ => False

/-- What a manifest is read as: what its fields make up, each of them read by
    itself. -/
structure FileRead (sheet : Sheet) (fields : List (Yaml.Field ManifestFile)) (entries : List Yaml.Entry)
    (file : ManifestFile) : Prop where
  names : fields.map Yaml.Field.name = fieldNames
  entries_eq : sheet.fields? sheet.root = some entries
  chain : Chain (RecordStep true fields (FileField sheet)) {} entries file
  hasTexts : ∀ line tag pairs, sheet.target sheet.root = .mapping line tag pairs → sheet.HasTexts pairs

/-- Every field of a manifest is one that is known, and was read as such. -/
theorem FileRead.exists_read {fields : List (Yaml.Field ManifestFile)} {entries : List Yaml.Entry}
    {f : Yaml.Entry} (h : FileRead sheet fields entries file) (hf : f ∈ entries) :
    ∃ field before after, field.name = f.name ∧ FileField sheet field before f.value after := by
  obtain ⟨before, after, hstep⟩ := h.chain.exists_step hf
  obtain ⟨field, -, hname, -, hread⟩ | ⟨-, hlax, -⟩ := hstep.cases
  · exact ⟨field, before, after, hname, hread⟩
  · cases hlax

private theorem fileRead_of_ofSheet (h : ofSheet sheet = .ok file) :
    file = {} ∨ ∃ fields entries, FileRead sheet fields entries file := by
  obtain ⟨found, hrun, rfl⟩ := map_eq_ok_iff.mp h
  refine Ensures.of_run (P := fun found => found.getD {} = {} ∨
    ∃ fields entries, FileRead sheet fields entries (found.getD {})) ?_ hrun
  refine ensures_visit.bind fun _ => Ensures.imp (ensures_readRecord (F := FileField sheet) ?_ _ _) ?_
  · simp only [List.forall_mem_cons]
    refine ⟨fun s n => ?_, fun s n => ?_, fun s n => ?_, fun s n => ?_, nofun⟩
    · refine (ensures_field ensures_readText s).imp ?_
      rintro s' ⟨found, rfl, hs'⟩
      exact hs'
    · refine (ensures_field (ensures_readTextMap n) s).imp ?_
      rintro s' ⟨found, rfl, hs'⟩
      change s' = _
      rw [hs']
      cases sheet.fields? n <;> rfl
    · exact ensures_field ensures_readSuites s
    · refine (ensures_field ensures_readLimits s).imp ?_
      rintro s' ⟨found, honly, hs'⟩
      refine ⟨?_, honly⟩
      cases found with
      | none => exact ⟨s.maxSteps, hs'⟩
      | some maxSteps => exact ⟨maxSteps, hs'⟩
  · rintro found (⟨entries, s', hfields, rfl, hchain, htexts⟩ | ⟨-, -, rfl⟩) _
    · exact .inr ⟨_, entries, rfl, hfields, hchain, htexts⟩
    · exact .inl rfl

end Files

end ManifestFile

namespace Manifest

open ManifestFile

section Loading

variable {d : Disk} {path : String} {m : Manifest}

private theorem readYaml_eq_ok {tree : FileTree} {doc : Yaml.Content} (h : tree.readYaml = .ok doc) :
    ∃ content, tree = .file content ∧ Yaml.read? content = some doc := by
  cases tree with
  | file content =>
    rw [FileTree.readYaml] at h
    split at h
    · next found hfound => exact ⟨content, rfl, hfound.trans (congrArg some (Except.ok.inj h))⟩
    · cases h
  | directory entries => cases h

/-- An accepted manifest is what a file means that can be read as one. -/
theorem load_reads (h : load d path = .ok m) :
    ∃ content sheet file, d.find (d.absolute path) = .ok (.file content) ∧
      Yaml.read? content = some (some sheet) ∧ ofSheet sheet = .ok file ∧
      m = file.toManifest (d.absolute path) ∧ m.issues = [] := by
  rw [load] at h
  split at h
  · cases h
  dsimp only at h
  split at h
  · cases h
  next tree hfound =>
    obtain ⟨doc, hdoc, hrest⟩ := bind_eq_ok_iff.mp h
    cases doc with
    | none => cases hrest
    | some sheet =>
      obtain ⟨file, hfile, hvalid⟩ := bind_eq_ok_iff.mp hrest
      have hread := within_eq_ok_iff.mp hdoc
      rw [validate] at hvalid
      split at hvalid
      · next hissues =>
        obtain rfl := Except.ok.inj hvalid
        obtain ⟨content, rfl, hcontent⟩ := readYaml_eq_ok hread
        exact ⟨content, sheet, file, hfound, hcontent, within_eq_ok_iff.mp hfile, rfl,
          List.isEmpty_iff.mp hissues⟩
      · cases hvalid

/-- A manifest has a name, so that it is not read from null. -/
theorem fileRead_of_load (h : load d path = .ok m) :
    ∃ content sheet fields entries file, d.find (d.absolute path) = .ok (.file content) ∧
      Yaml.read? content = some (some sheet) ∧ FileRead sheet fields entries file ∧
      m = file.toManifest (d.absolute path) := by
  obtain ⟨content, sheet, file, hfound, hread, hfile, hm, hissues⟩ := load_reads h
  obtain rfl | ⟨fields, entries, hfields⟩ := fileRead_of_ofSheet hfile
  · have hname : m.name = "" := by
      rw [hm]
      exact (by decide : Text.trim "" = "")
    rw [issues, hname] at hissues
    cases hissues
  · exact ⟨content, sheet, fields, entries, file, hfound, hread, hfields, hm⟩

end Loading

/-- A disk with nothing but a manifest, in the directory of the program. -/
def diskOf (text : String) : Disk where
  root := .directory [(fileName, .file (Text.toBytes text))]
  directory := "/"

end Manifest

end WhilePlus
