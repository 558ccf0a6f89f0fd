import WhilePlus.CommandLine.Session
import WhilePlus.Proofs.Disk.Rooted
import WhilePlus.Proofs.Document.Shape
import WhilePlus.Proofs.Text.Trim

open WhilePlus.Path (ofNames IsName)

namespace WhilePlus

private theorem SuiteSpec.trimmed_trimmed (spec : SuiteSpec) : spec.trimmed.trimmed = spec.trimmed := by
  simp only [trimmed, Text.trim_trim]

private theorem ManifestFile.name_toManifest (file : ManifestFile) (path : String) :
    Text.trim (file.toManifest path).name = (file.toManifest path).name :=
  Text.trim_trim file.name

private theorem lookup_foldl_insertBinding {P : Option SuiteSpec → Prop} {name : String}
    {found : Option SuiteSpec} {suites known : List (String × Option SuiteSpec)}
    (hall : ∀ spec : Option SuiteSpec, P (spec.map SuiteSpec.trimmed))
    (hknown : ∀ {n s}, known.lookup n = some s → P s)
    (h : (suites.foldl (fun known s => insertBinding s.1 (s.2.map SuiteSpec.trimmed) known)
      known).lookup name = some found) : P found := by
  induction suites generalizing known with
  | nil => exact hknown h
  | cons s rest ih =>
    refine ih (fun {n found} hfound => ?_) h
    rw [lookup_insertBinding] at hfound
    split at hfound
    · cases hfound
      exact hall s.2
    · exact hknown hfound

private theorem ManifestFile.trimmed_of_lookup {file : ManifestFile} {path name : String} {spec : SuiteSpec}
    (h : (file.toManifest path).suites.lookup name = some (some spec)) : spec.trimmed = spec := by
  refine lookup_foldl_insertBinding (P := fun found => ∀ s, found = some s → s.trimmed = s) ?_ ?_ h
    spec rfl
  · rintro (_ | spec) s hs
    · cases hs
    · cases hs
      exact spec.trimmed_trimmed
  · intro n s hs
    cases hs

namespace Manifest

section Nearest

-- where the manifest is found must not be followed when both sides are compared
seal Manifest.find

private theorem nearestManifest_cons (d : Disk) (path : String) (rest : List String) :
    nearestManifest d (path :: rest) =
      if d.contains path then
        match find d path with
        | some found => (load d found).map some
        | none => nearestManifest d rest
      else nearestManifest d rest := rfl

end Nearest

section Found

variable {d : Disk} {path start : String} {m : Manifest} {stack : List String}

private theorem isFile_iff : d.isFile path = true ↔ ∃ content, d.find path = .ok (.file content) := by
  rw [Disk.isFile]
  cases d.find path with
  | error trouble => simp
  | ok t => cases t <;> simp [FileTree.isDirectory]

private theorem findFrom_eq_some (h : findFrom d stack = some path) :
    ∃ above, above <:+ stack ∧ path = ofNames true (above.reverse ++ [fileName]) ∧
      d.isFile path = true := by
  induction stack with
  | nil =>
    rw [findFrom] at h
    split at h
    · next hfile =>
      cases h
      exact ⟨[], List.suffix_rfl, rfl, hfile⟩
    · cases h
  | cons name outer ih =>
    rw [findFrom] at h
    split at h
    · next hfile =>
      cases h
      exact ⟨name :: outer, List.suffix_rfl, rfl, hfile⟩
    · obtain ⟨above, habove, hpath, hfile⟩ := ih h
      exact ⟨above, habove.trans (List.suffix_cons name outer), hpath, hfile⟩

private theorem load_eq_ok (h : load d path = .ok m) :
    ∃ file : ManifestFile, m = file.toManifest (d.absolute path) := by
  rw [load] at h
  split at h
  · cases h
  dsimp only at h
  split at h
  · cases h
  next tree _ =>
    obtain ⟨doc, -, h⟩ := bind_eq_ok_iff.mp h
    cases doc with
    | none => cases h
    | some sheet =>
      obtain ⟨file, -, h⟩ := bind_eq_ok_iff.mp h
      rw [validate] at h
      split at h
      · exact ⟨file, (Except.ok.inj h).symm⟩
      · cases h

/-- The directory of a manifest, by its names. -/
structure StandsIn (d : Disk) (m : Manifest) (ns : List String) : Prop where
  names : ∀ n ∈ ns, IsName n
  isDirectory : d.isDirectory (ofNames true ns) = true
  lockPath_eq : m.lockPath = ofNames true (ns ++ [lockName])
  /-- The manifest is what some file means. -/
  read : ∃ file : ManifestFile, m = file.toManifest m.path

private theorem standsIn_of_load (hfile : d.isFile (ofNames true (stack ++ [fileName])) = true)
    (hnames : ∀ n ∈ stack, IsName n) (h : load d (ofNames true (stack ++ [fileName])) = .ok m) :
    StandsIn d m stack := by
  have hname : IsName fileName := ⟨by decide, by decide, by decide, by decide⟩
  have hlock : IsName lockName := ⟨by decide, by decide, by decide, by decide⟩
  have hall : ∀ n ∈ stack ++ [fileName], IsName n :=
    List.forall_mem_append.mpr ⟨hnames, by simpa using hname⟩
  obtain ⟨file, rfl⟩ := load_eq_ok h
  have hpath : (file.toManifest (d.absolute (ofNames true (stack ++ [fileName])))).path =
      ofNames true (stack ++ [fileName]) :=
    Path.absolute_ofNames hall d.directory
  refine ⟨hnames, ?_, ?_, file, rfl⟩
  · obtain ⟨content, hfound⟩ := isFile_iff.mp hfile
    obtain ⟨hfits, hroot, hget⟩ := (Disk.find_ofNames_iff hall).mp hfound
    rw [FileTree.get?_append] at hget
    obtain ⟨t, habove, hbelow⟩ := Option.bind_eq_some_iff.mp hget
    cases t with
    | file content => cases hbelow
    | directory entries =>
      exact (Disk.isDirectory_ofNames_iff hnames).mpr ⟨hfits.of_append, entries, habove⟩
  · rw [lockPath, root, hpath, Path.parent_ofNames hnames hname, Path.join_ofNames_name hnames hlock]

/-- A manifest that was found among some paths stands in a directory. Nothing is
    asked of the paths. -/
theorem standsIn_of_nearestManifest {paths : List String}
    (h : nearestManifest d paths = .ok (some m)) : ∃ ns, StandsIn d m ns := by
  induction paths with
  | nil => cases h
  | cons path rest ih =>
    rw [nearestManifest_cons] at h
    split at h
    · split at h
      · next found hfound =>
        rw [find] at hfound
        obtain ⟨above, habove, rfl, hfile⟩ := findFrom_eq_some hfound
        have hnames : ∀ n ∈ above.reverse, IsName n := by
          intro n hn
          refine Path.isName_of_mem_names _ n (List.mem_reverse.mp (habove.subset ?_))
          exact List.mem_reverse.mp hn
        cases hload : load d (ofNames true (above.reverse ++ [fileName])) with
        | error e => rw [hload] at h; cases h
        | ok loaded =>
          rw [hload] at h
          cases h
          exact ⟨_, standsIn_of_load hfile hnames hload⟩
      · exact ih h
    · exact ih h

/-- The name of a manifest that was read has no white space around it. -/
theorem StandsIn.trim_name {ns : List String} (h : StandsIn d m ns) : Text.trim m.name = m.name := by
  obtain ⟨file, hread⟩ := h.read
  rw [hread]
  exact file.name_toManifest m.path

/-- The parts of a suite that was read have no white space around them. This is
    not said of its name. -/
theorem StandsIn.trimmed_of_declared {ns : List String} {name : String} {spec : SuiteSpec}
    (h : StandsIn d m ns) (hdeclared : (m.suites.lookup name).bind id = some spec) :
    spec.trimmed = spec := by
  obtain ⟨file, hread⟩ := h.read
  obtain ⟨found, hfound, hspec⟩ := Option.bind_eq_some_iff.mp hdeclared
  rw [hread, show found = some spec from hspec] at hfound
  exact ManifestFile.trimmed_of_lookup hfound

end Found

end Manifest

end WhilePlus
