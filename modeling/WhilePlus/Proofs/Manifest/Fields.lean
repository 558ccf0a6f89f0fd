import WhilePlus.Proofs.Manifest.Reading

namespace WhilePlus.Manifest

open Yaml ManifestFile

/-- The fields of a document that a manifest is read from. -/
structure FieldsChecked (sheet : Sheet) : Prop where
  /-- The manifest has only the fields of a manifest. -/
  top : sheet.OnlyFields ManifestFile.fieldNames sheet.root
  /-- Its limits are the step limit alone. -/
  limits : ∀ fields, sheet.fields? sheet.root = some fields → ∀ f ∈ fields, f.name = "limits" →
    sheet.OnlyFields ["max_steps"] f.value
  /-- Suites that are tagged as null have only the fields of a suite. -/
  tagged : ∀ fields, sheet.fields? sheet.root = some fields → ∀ f ∈ fields, f.name = "suites" →
    sheet.tag f.value = nullTag → ∀ suites, sheet.fields? f.value = some suites → ∀ s ∈ suites,
      sheet.OnlyFields SuiteSpec.fieldNames s.value
  /-- An ordinary suite may have any field, and is what those of a suite make up
      among them. -/
  plain : ∀ fields, sheet.fields? sheet.root = some fields → ∀ f ∈ fields, f.name = "suites" →
    sheet.tag f.value ≠ nullTag → ∃ line tag pairs, sheet.target f.value = .mapping line tag pairs ∧
      ∀ p ∈ pairs, ∃ name, sheet.text? p.1 = some name ∧ ∀ inner, sheet.fields? p.2 = some inner →
        readSuite sheet (Text.trim name) p.2 =
          .ok (specOf sheet (inner.filter (·.name ∈ SuiteSpec.fieldNames)))

section Loading

variable {d : Disk} {path : String} {m : Manifest}

private theorem fieldsChecked_of_fileRead {sheet : Sheet} {file : ManifestFile} {fields : List (Yaml.Field ManifestFile)}
    {entries : List Yaml.Entry} (h : FileRead sheet fields entries file) : FieldsChecked sheet := by
  constructor
  case top =>
    refine onlyFields_of_fields (fun inner hinner f hf => ?_) h.hasTexts
    obtain rfl := Option.some.inj (h.entries_eq.symm.trans hinner)
    rw [← h.names]
    exact (exists_field_of_strict h.chain f hf).2
  case limits =>
    intro inner hinner f hf hfname
    obtain rfl := Option.some.inj (h.entries_eq.symm.trans hinner)
    obtain ⟨field, before, after, hname, hread⟩ := h.exists_read hf
    rw [FileField, hname, hfname] at hread
    exact hread.2
  case tagged =>
    intro inner hinner f hf hfname htag suites hsuites
    obtain rfl := Option.some.inj (h.entries_eq.symm.trans hinner)
    obtain ⟨field, before, after, hname, hread⟩ := h.exists_read hf
    rw [FileField, hname, hfname] at hread
    obtain ⟨found, hread, -⟩ := hread
    cases hread with
    | unset _ hnull =>
      rw [value?_of_fields? hsuites] at hnull
      cases hnull
    | tagged _ hfields honly =>
      obtain rfl := Option.some.inj (hfields.symm.trans hsuites)
      exact honly
    | plain hplain => exact absurd htag hplain
  case plain =>
    intro inner hinner f hf hfname htag
    obtain rfl := Option.some.inj (h.entries_eq.symm.trans hinner)
    obtain ⟨field, before, after, hname, hread⟩ := h.exists_read hf
    rw [FileField, hname, hfname] at hread
    obtain ⟨found, hread, -⟩ := hread
    cases hread with
    | unset hnull => exact absurd hnull htag
    | tagged hnull => exact absurd hnull htag
    | plain _ htarget hread =>
      refine ⟨_, _, _, htarget, fun p hp => ?_⟩
      obtain ⟨name, hname, hsuite⟩ := hread p hp
      refine ⟨name, hname, fun inner hinner => ?_⟩
      rw [hsuite, suiteOf_of_fields? hsuite hinner, specOf_filter]

/-- No field is accepted that is not known, except in an ordinary suite, where
    it is passed over. -/
theorem fields_of_load (h : load d path = .ok m) :
    ∃ content sheet, d.find (d.absolute path) = .ok (.file content) ∧
      Yaml.read? content = some (some sheet) ∧ FieldsChecked sheet := by
  obtain ⟨content, sheet, fields, entries, file, hfound, hread, hfile, -⟩ := fileRead_of_load h
  exact ⟨content, sheet, hfound, hread, fieldsChecked_of_fileRead hfile⟩

end Loading

section Misspelt

/-- A manifest with a suite and a step limit. -/
def limited : String :=
  "name: demo\nsuites:\n  s:\n    path: a\nlimits:\n  max_steps: 3\n"

/-- The manifest is loaded, so none of its fields is an unknown one. -/
theorem fields_of_load_limited :
    load (diskOf limited) fileName =
        .ok ⟨"/whileplus.yml", "demo", [], [("s", some { path := "a" })], 3⟩ ∧
      ∃ content sheet, (diskOf limited).find "/whileplus.yml" = .ok (.file content) ∧
        Yaml.read? content = some (some sheet) ∧ FieldsChecked sheet := by
  have h : load (diskOf limited) fileName =
      .ok ⟨"/whileplus.yml", "demo", [], [("s", some { path := "a" })], 3⟩ := by
    decide +kernel
  exact ⟨h, fields_of_load h⟩

/-- The names of the fields of a suite in the first document of a file. -/
def suiteFields? (content : List UInt8) (suite : String) : Option (List String) := do
  let doc ← Yaml.read? content
  let sheet ← doc
  let suites ← sheet.member? "suites" sheet.root
  let spec ← sheet.member? suite suites
  let fields ← sheet.fields? spec
  pure (fields.map (·.name))

/-- A manifest whose suite has a misspelt field. -/
def misspelt : String :=
  "name: demo\nsuites:\n  s:\n    path: a\n    extra: b\n"

/-- An unknown field of a suite is passed over, and nothing is reported. -/
theorem load_misspelt :
    load (diskOf misspelt) fileName =
        .ok ⟨"/whileplus.yml", "demo", [], [("s", some { path := "a" })], 0⟩ ∧
      ∃ sheet, Yaml.read? (Text.toBytes misspelt) = some (some sheet) ∧
        ∃ suites, sheet.member? "suites" sheet.root = some suites ∧
          ∃ spec, sheet.member? "s" suites = some spec ∧ ¬ sheet.OnlyFields SuiteSpec.fieldNames spec := by
  refine ⟨by decide +kernel, ?_⟩
  have h : suiteFields? (Text.toBytes misspelt) "s" = some ["path", "extra"] := by decide +kernel
  obtain ⟨doc, hdoc, hsheet⟩ := Option.bind_eq_some_iff.mp h
  obtain ⟨sheet, rfl, hmember⟩ := Option.bind_eq_some_iff.mp hsheet
  obtain ⟨suites, hsuites, hsuite⟩ := Option.bind_eq_some_iff.mp hmember
  obtain ⟨spec, hspec, hnames⟩ := Option.bind_eq_some_iff.mp hsuite
  obtain ⟨fields, hfields, hnames⟩ := Option.bind_eq_some_iff.mp hnames
  refine ⟨sheet, hdoc, suites, hsuites, spec, hspec, fun honly => ?_⟩
  have hextra : "extra" ∈ fields.map (·.name) := by
    rw [Option.some.inj hnames]
    decide
  obtain ⟨f, hf, hname⟩ := List.mem_map.mp hextra
  have hmem := honly.fields fields hfields f hf
  rw [hname] at hmem
  exact absurd hmem (by decide)

end Misspelt

end WhilePlus.Manifest
