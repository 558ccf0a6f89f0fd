import WhilePlus.Fixture.File
import WhilePlus.Proofs.Disk.Below
import WhilePlus.Proofs.Except

namespace WhilePlus.Fixture

/-- The path that is looked at to see whether a directory below a root is a
    fixture. -/
def manifestPath (root : String) (names : List String) : String :=
  Path.join [Path.below root names, manifestName]

/-- A manifest could not be looked at, as its path is too long. -/
def IsBeyond (root : String) (names : List String) : Prop :=
  Disk.pathLimit ≤ (Text.toBytes (manifestPath root names)).length

instance (root : String) (names : List String) : Decidable (IsBeyond root names) :=
  inferInstanceAs (Decidable (_ ≤ _))

/-- A fixture that is known by the way to its directory; the one in the root
    itself keeps its name. -/
def named (names : List String) (fx : Fixture) : Fixture :=
  if names = [] then fx else { fx with name := "/".intercalate names }

/-- What loading the fixture in a directory below a root comes to. -/
def loadAt (d : Disk) (root : String) (names : List String) : Except Error Fixture :=
  if IsBeyond root names then .error (diskError "stat" (manifestPath root names) .nameTooLong)
  else named names <$> load d (Path.below root names)

/-- A directory below a root has to be loaded: it has a manifest, or its path is
    too long to tell. -/
def Asks (t : FileTree) (root : String) (names : List String) : Prop :=
  t.get? (names ++ [manifestName]) ≠ none ∨ IsBeyond root names

section Collect

variable {d : Disk} {t : FileTree} {root : String} {names : List String} {fx : Fixture}

instance (t : FileTree) (root : String) (names : List String) : Decidable (Asks t root names) :=
  inferInstanceAs (Decidable (_ ∨ _))

private theorem isEntryName_manifestName : IsEntryName manifestName := by decide

private theorem loadBelow_eq_match (d : Disk) (root : String) (names : List String) :
    loadBelow d root names =
      match d.find (manifestPath root names) with
      | .error .notFound => .ok none
      | .error trouble => .error (diskError "stat" (manifestPath root names) trouble)
      | .ok _ => (some ∘ named names) <$> load d (Path.below root names) := by
  have hnamed : ∀ fx : Fixture,
      (if names.isEmpty then fx else { fx with name := relativePath names }) = named names fx := by
    cases names <;> exact fun fx => rfl
  simp only [loadBelow, hnamed]
  rfl

private theorem find_manifestPath (hroot : d.find root = .ok t) (ht : t.IsOrderly) (h : t.Shows names) :
    d.find (manifestPath root names) =
      if IsBeyond root names then .error .nameTooLong
      else
        match t.get? (names ++ [manifestName]) with
        | some child => .ok child
        | none => .error .notFound := by
  obtain ⟨-, entries, hdirectory⟩ := h
  exact Disk.find_join_below hroot (ht.isEntryName hdirectory) hdirectory isEntryName_manifestName

/-- One directory of a walk is loaded if it has to be, and else passed over. The
    tree must be orderly and show the directory, so that its path leads there. -/
theorem loadBelow_eq (hroot : d.find root = .ok t) (ht : t.IsOrderly) (h : t.Shows names) :
    loadBelow d root names = if Asks t root names then some <$> loadAt d root names else .ok none := by
  rw [loadBelow_eq_match, find_manifestPath hroot ht h, loadAt]
  by_cases hbeyond : IsBeyond root names
  · rw [if_pos hbeyond, if_pos hbeyond, if_pos (.inr hbeyond)]
    rfl
  · rw [if_neg hbeyond, if_neg hbeyond]
    cases hmanifest : t.get? (names ++ [manifestName]) with
    | none => rw [if_neg (by simp [Asks, hmanifest, hbeyond])]
    | some child =>
      rw [if_pos (.inl (by simp [hmanifest]))]
      exact comp_map ..

/-- A walk is loaded directory by directory: those that need not be loaded are
    left out first, and the first error among the others ends it. -/
theorem loadAll_eq (hroot : d.find root = .ok t) (ht : t.IsOrderly) {places : List (List String)}
    (h : ∀ names ∈ places, t.Shows names) :
    loadAll d root places = (places.filter (Asks t root ·)).mapM (loadAt d root) := by
  induction places with
  | nil => rfl
  | cons names rest ih =>
    obtain ⟨hshows, hrest⟩ := List.forall_mem_cons.mp h
    rw [loadAll, loadBelow_eq hroot ht hshows, ih hrest]
    by_cases hasks : Asks t root names
    · rw [if_pos hasks, List.filter_cons_of_pos (by simpa using hasks), List.mapM_cons]
      cases loadAt d root names with
      | error e => rfl
      | ok fx => rfl
    · rw [if_neg hasks, List.filter_cons_of_neg (by simpa using hasks)]
      exact bind_pure ((rest.filter (Asks t root ·)).mapM (loadAt d root))

/-- Collecting fixtures loads each directory that has to be loaded, in the order
    of the names on the way to it. -/
theorem collect_eq_mapM (hroot : d.find root = .ok t) (ht : t.IsOrderly) :
    ∃ places : List (List String),
      (∀ names, names ∈ places ↔ Path.base root ≠ hiddenName ∧ t.Shows names ∧ Asks t root names) ∧
      places.Pairwise (List.Lex Text.Precedes) ∧
      collect d root = places.mapM (loadAt d root) := by
  have hshows : ∀ names, names ∈ t.directories [] ↔ t.Shows names := by
    simp [ht.mem_directories_iff]
  by_cases hhidden : (t.isDirectory && Path.base root == hiddenName) = true
  · refine ⟨[], fun names => ?_, .nil, ?_⟩
    · have hname : Path.base root = hiddenName := (by simpa using hhidden : _ ∧ _).2
      simp [hname]
    · rw [collect, hroot]
      dsimp only
      rw [if_pos hhidden]
      rfl
  · refine ⟨(t.directories []).filter (Asks t root ·), fun names => ?_, ht.pairwise_directories.filter _, ?_⟩
    · have hname : t.Shows names → Path.base root ≠ hiddenName := fun h => by
        simpa [h.isDirectory] using hhidden
      rw [List.mem_filter, hshows, decide_eq_true_eq]
      exact ⟨fun h => ⟨hname h.1, h⟩, And.right⟩
    · rw [collect, hroot]
      dsimp only
      rw [if_neg hhidden]
      exact loadAll_eq hroot ht fun names hnames => (hshows names).mp hnames

private theorem directory_of_load {directory : String} (h : load d directory = .ok fx) :
    fx.directory = d.absolute directory := by
  simp only [load, bind_eq_ok_iff] at h
  obtain ⟨_, _, _, _, _, _, ⟨programPath, program⟩, _, h⟩ := h
  rw [← Except.ok.inj h]

private theorem directory_named (names : List String) (fx : Fixture) : (named names fx).directory = fx.directory := by
  rw [named]
  split <;> rfl

/-- What a directory has if the fixture in it was loaded, and what is known of
    the fixture. -/
theorem of_loadAt (hasks : Asks t root names) (h : loadAt d root names = .ok fx) :
    t.get? (names ++ [manifestName]) ≠ none ∧ fx.directory = d.absolute (Path.below root names) ∧
      (names ≠ [] → fx.name = "/".intercalate names) := by
  rw [loadAt] at h
  split at h
  · cases h
  next hbeyond =>
    obtain ⟨loaded, hload, rfl⟩ := map_eq_ok_iff.mp h
    exact ⟨hasks.resolve_right hbeyond, (directory_named ..).trans (directory_of_load hload),
      fun hne => by rw [named, if_neg hne]⟩

/-- Collecting fixtures returns each of them once and in order. Some directories
    of a tree have to be loaded: all that no hidden name leads to, the root
    included, and that have a manifest, together with those whose manifest has a
    path that is too long to tell, which do not load. They are known by the
    names on the way to them, in the order of these names, so that a directory
    comes before what is below it. If they all load, the fixtures in them are
    returned one for one, and each but the one in the root is named by the way
    to it; and if not, the error of the first that fails is. -/
theorem collect_in_order (hroot : d.find root = .ok t) (ht : t.IsOrderly) :
    ∃ places : List (List String),
      (∀ names, names ∈ places ↔ Path.base root ≠ hiddenName ∧ t.Shows names ∧ Asks t root names) ∧
      places.Pairwise (List.Lex Text.Precedes) ∧
      (places.Pairwise fun earlier later => ¬ later <+: earlier) ∧
      (∀ fixtures, collect d root = .ok fixtures ↔
        List.Forall₂ (fun names fx => loadAt d root names = .ok fx) places fixtures) ∧
      (∀ names ∈ places, ∀ fx, loadAt d root names = .ok fx →
        t.get? (names ++ [manifestName]) ≠ none ∧ fx.directory = d.absolute (Path.below root names) ∧
          (names ≠ [] → fx.name = "/".intercalate names)) ∧
      ∀ e, collect d root = .error e ↔ ∃ before names after, places = before ++ names :: after ∧
        (∀ earlier ∈ before, ∃ fx, loadAt d root earlier = .ok fx) ∧ loadAt d root names = .error e := by
  obtain ⟨places, hplaces, horder, hcollect⟩ := collect_eq_mapM hroot ht
  refine ⟨places, hplaces, horder, horder.imp (not_prefix_of_lex Text.Precedes.irrefl), fun fixtures => ?_,
    fun names hnames fx hload => of_loadAt ((hplaces names).mp hnames).2.2 hload, fun e => ?_⟩
  · rw [hcollect, mapM_eq_ok_iff]
  · rw [hcollect, mapM_eq_error_iff]

end Collect

section Nested

/-- The files of a fixture that asks for nothing. -/
def fixtureFiles : List (String × FileTree) :=
  [("manifest.yml", .file (Text.toBytes "\x7b\x7d")),
    ("program.yml", .file (Text.toBytes "type: Skip"))]

/-- Fixtures below a directory, beside it and below a hidden name. -/
def nestedFixtures : FileTree :=
  .directory [(".git", .directory fixtureFiles),
    ("a", .directory [("b", .directory fixtureFiles)]),
    ("a-b", .directory fixtureFiles)]

private theorem isOrderly_nestedFixtures : nestedFixtures.IsOrderly := by
  have hfiles : ∀ entry ∈ fixtureFiles, entry.2.IsOrderly := by simp [fixtureFiles, FileTree.IsOrderly.file]
  have hfixture : (FileTree.directory fixtureFiles).IsOrderly := .directory (by decide) (by decide) hfiles
  have houter : (FileTree.directory [("b", .directory fixtureFiles)]).IsOrderly :=
    .directory (by decide) (by decide) (by simpa using hfixture)
  exact .directory (by decide) (by decide) (by simp [hfixture, houter])

/-- What is below a directory comes before what is beside it, other than in the
    order of the whole texts. -/
theorem collect_in_order_nested :
    (Disk.mk nestedFixtures "/" "").find "/" = .ok nestedFixtures ∧ nestedFixtures.IsOrderly ∧
      ∃ fixtures, collect ⟨nestedFixtures, "/", ""⟩ "/" = .ok fixtures ∧
        fixtures.map Fixture.name = ["a/b", "a-b"] ∧
        ∃ places, places.Pairwise (List.Lex Text.Precedes) ∧
          List.Forall₂ (fun names fx => loadAt ⟨nestedFixtures, "/", ""⟩ "/" names = .ok fx) places fixtures := by
  have hroot : (Disk.mk nestedFixtures "/" "").find "/" = .ok nestedFixtures := rfl
  have hnames : (collect ⟨nestedFixtures, "/", ""⟩ "/").map (·.map Fixture.name) = .ok ["a/b", "a-b"] := by
    decide +kernel
  obtain ⟨places, -, horder, -, hok, -, -⟩ := collect_in_order hroot isOrderly_nestedFixtures
  cases hcollect : collect ⟨nestedFixtures, "/", ""⟩ "/" with
  | error e => rw [hcollect] at hnames; cases hnames
  | ok fixtures =>
    rw [hcollect] at hnames
    exact ⟨hroot, isOrderly_nestedFixtures, fixtures, rfl, Except.ok.inj hnames, places, horder,
      (hok fixtures).mp hcollect⟩

end Nested

end WhilePlus.Fixture
