import WhilePlus.Manifest.File
import WhilePlus.Proofs.Store.Rebinding
import WhilePlus.Proofs.Suite.Failure

namespace WhilePlus

/-- What a suite from a repository is pinned to. -/
inductive Pin where
  | rev (name : String)
  | tag (name : String)
  | branch (name : String)
  deriving DecidableEq, Repr

namespace Pin

/-- The name of the revision, the tag or the branch. -/
def name : Pin → String
  | rev name => name
  | tag name => name
  | branch name => name

/-- The revision of the repository that the pin stands for. -/
def revision : Pin → Suite.Revision
  | rev name => ⟨name, name⟩
  | tag name => ⟨"refs/tags/" ++ name, name⟩
  | branch name => ⟨"refs/heads/" ++ name, name⟩

end Pin

/-- The pins of a suite, those that are empty left out. -/
def SuiteSpec.pins (spec : SuiteSpec) : List Pin :=
  [.rev spec.rev, .tag spec.tag, .branch spec.branch].filter fun pin => pin.name != ""

/-- A rule for suites. -/
inductive SuiteRule where
  /-- A suite comes from a directory or from a repository, and not from both. -/
  | oneSource
  /-- A suite from a repository is pinned. -/
  | pinned
  /-- Nothing is pinned twice. -/
  | onePin
  /-- Only a suite from a repository is pinned. -/
  | pinsOfGit
  /-- The directory of a suite never leads upwards. -/
  | inside
  deriving DecidableEq, Repr

namespace SuiteRule

/-- All rules, in the order in which they are checked. -/
def all : List SuiteRule := [oneSource, pinned, onePin, pinsOfGit, inside]

/-- A suite follows the rule. -/
def Holds (spec : SuiteSpec) : SuiteRule → Prop
  | oneSource => ¬ (spec.path = "" ↔ spec.git = "")
  | pinned => spec.git ≠ "" → spec.pins ≠ []
  | onePin => spec.pins.length ≤ 1
  | pinsOfGit => spec.git = "" → spec.pins = []
  | inside => ¬ Text.toBytes ".." <:+: Text.toBytes spec.dir

instance (spec : SuiteSpec) (rule : SuiteRule) : Decidable (rule.Holds spec) :=
  match rule with
  | oneSource => inferInstanceAs (Decidable (¬ _))
  | pinned => inferInstanceAs (Decidable (_ → _))
  | onePin => inferInstanceAs (Decidable (_ ≤ _))
  | pinsOfGit => inferInstanceAs (Decidable (_ → _))
  | inside => decidable_of_iff (¬ Text.contains spec.dir ".." = true) (not_congr Text.contains_iff)

/-- What is said of a suite that breaks the rule. -/
def message (spec : SuiteSpec) : SuiteRule → String
  | oneSource =>
    if spec.git = "" then "must specify path or git" else "path suites cannot also specify git"
  | pinned => "git suites require rev, tag, or branch"
  | onePin => "rev, tag, and branch are mutually exclusive"
  | pinsOfGit => "rev, tag, and branch apply only to git suites"
  | inside => "dir " ++ Text.quote spec.dir ++ " must stay inside the checkout"

/-- The rules that a suite breaks. -/
def broken (spec : SuiteSpec) : List SuiteRule :=
  all.filter fun rule => ¬ rule.Holds spec

variable {spec : SuiteSpec} {rule : SuiteRule}

private theorem mem_all (rule : SuiteRule) : rule ∈ all := by
  cases rule <;> decide

private theorem mem_broken_iff : rule ∈ broken spec ↔ ¬ rule.Holds spec := by
  simp [broken, mem_all]

private theorem nodup_broken (spec : SuiteSpec) : (broken spec).Nodup :=
  List.Nodup.filter _ (by decide)

end SuiteRule

namespace SuiteSpec

variable {spec : SuiteSpec}

private theorem pinCount_eq (spec : SuiteSpec) : spec.pinCount = spec.pins.length := by
  have hnames : [spec.rev, spec.tag, spec.branch] =
      [Pin.rev spec.rev, .tag spec.tag, .branch spec.branch].map Pin.name := rfl
  rw [pinCount, hnames, List.filter_map, List.length_map]
  rfl

/-- What is said of a suite: one text for each rule that it breaks. -/
theorem issues_eq (spec : SuiteSpec) :
    spec.issues = (SuiteRule.broken spec).map (SuiteRule.message spec) := by
  have hbroken : ∀ rules : List SuiteRule,
      (rules.filter fun rule => ¬ rule.Holds spec).map (SuiteRule.message spec) =
        rules.flatMap fun rule => if rule.Holds spec then [] else [rule.message spec] := by
    intro rules
    induction rules with
    | nil => rfl
    | cons rule rest ih =>
      rw [List.flatMap_cons, ← ih]
      by_cases hholds : rule.Holds spec <;> simp [hholds]
  have hsource : (if spec.path != "" && spec.git != "" then ["path suites cannot also specify git"]
      else if spec.path == "" && spec.git == "" then ["must specify path or git"] else []) =
      if SuiteRule.oneSource.Holds spec then [] else [SuiteRule.oneSource.message spec] := by
    by_cases hpath : spec.path = "" <;> by_cases hgit : spec.git = "" <;>
      simp [SuiteRule.Holds, SuiteRule.message, hpath, hgit]
  have hpinned : (if spec.git != "" && spec.pins.length == 0 then
      ["git suites require rev, tag, or branch"] else []) =
      if SuiteRule.pinned.Holds spec then [] else [SuiteRule.pinned.message spec] := by
    by_cases hgit : spec.git = "" <;> by_cases hpins : spec.pins = [] <;>
      simp [SuiteRule.Holds, SuiteRule.message, hpins, hgit]
  have honePin : (if 1 < spec.pins.length then ["rev, tag, and branch are mutually exclusive"] else []) =
      if SuiteRule.onePin.Holds spec then [] else [SuiteRule.onePin.message spec] := by
    by_cases hpins : spec.pins.length ≤ 1
    · simp [SuiteRule.Holds, hpins]
    · simp [SuiteRule.Holds, SuiteRule.message, hpins, Nat.not_le.mp hpins]
  have hpinsOfGit : (if spec.git == "" && decide (0 < spec.pins.length) then
      ["rev, tag, and branch apply only to git suites"] else []) =
      if SuiteRule.pinsOfGit.Holds spec then [] else [SuiteRule.pinsOfGit.message spec] := by
    by_cases hgit : spec.git = "" <;> by_cases hpins : spec.pins = [] <;>
      simp [SuiteRule.Holds, SuiteRule.message, hpins, hgit, List.length_pos_iff]
  have hinside : (if Text.contains spec.dir ".." then
      ["dir " ++ Text.quote spec.dir ++ " must stay inside the checkout"] else []) =
      if SuiteRule.inside.Holds spec then [] else [SuiteRule.inside.message spec] := by
    simp only [SuiteRule.Holds, SuiteRule.message, ← Text.contains_iff]
    cases Text.contains spec.dir ".." <;> rfl
  rw [SuiteRule.broken, hbroken, issues, pinCount_eq, hsource, hpinned, honePin, hpinsOfGit, hinside]
  simp only [SuiteRule.all, List.flatMap_cons, List.flatMap_nil, List.append_nil, List.append_assoc]

/-- A suite that can be used. -/
structure IsSound (spec : SuiteSpec) : Prop where
  /-- It comes either from a directory or from a repository. -/
  source : spec.path ≠ "" ∧ spec.git = "" ∨ spec.path = "" ∧ spec.git ≠ ""
  /-- It has one pin if it comes from a repository, and none otherwise. -/
  pins : if spec.git = "" then spec.pins = [] else ∃ pin, spec.pins = [pin]
  inside : ¬ Text.toBytes ".." <:+: Text.toBytes spec.dir

private theorem isSound_iff : spec.IsSound ↔ ∀ rule : SuiteRule, rule.Holds spec := by
  constructor
  · rintro ⟨hsource, hpins, hinside⟩ rule
    cases rule with
    | oneSource =>
      rcases hsource with ⟨hpath, hgit⟩ | ⟨hpath, hgit⟩
      · exact fun hiff => hpath (hiff.mpr hgit)
      · exact fun hiff => hgit (hiff.mp hpath)
    | pinned =>
      intro hgit
      rw [if_neg hgit] at hpins
      obtain ⟨pin, hpin⟩ := hpins
      simp [hpin]
    | onePin =>
      split at hpins
      · simp [SuiteRule.Holds, hpins]
      · obtain ⟨pin, hpin⟩ := hpins
        simp [SuiteRule.Holds, hpin]
    | pinsOfGit =>
      intro hgit
      rwa [if_pos hgit] at hpins
    | inside => exact hinside
  · intro h
    have hsource : ¬ (spec.path = "" ↔ spec.git = "") := h .oneSource
    have hpinned : spec.git ≠ "" → spec.pins ≠ [] := h .pinned
    have honePin : spec.pins.length ≤ 1 := h .onePin
    have hpinsOfGit : spec.git = "" → spec.pins = [] := h .pinsOfGit
    refine ⟨by tauto, ?_, h .inside⟩
    split
    · next hgit => exact hpinsOfGit hgit
    · next hgit =>
      have hpos := List.length_pos_iff.mpr (hpinned hgit)
      exact List.length_eq_one_iff.mp (by omega)

/-- A suite passes its checks exactly if it is sound. -/
theorem issues_eq_nil_iff : spec.issues = [] ↔ spec.IsSound := by
  rw [issues_eq, List.map_eq_nil_iff, isSound_iff, List.eq_nil_iff_forall_not_mem]
  simp only [SuiteRule.mem_broken_iff, not_not]

/-- The revision that is fetched is that of the first pin. -/
theorem revision?_eq (spec : SuiteSpec) :
    Suite.revision? spec = spec.pins.head?.map Pin.revision := by
  rw [Suite.revision?, pins]
  by_cases hrev : spec.rev = "" <;> by_cases htag : spec.tag = "" <;>
    by_cases hbranch : spec.branch = "" <;> simp [hrev, htag, hbranch, Pin.name, Pin.revision]

end SuiteSpec

private theorem suiteIssues_eq (spec : Option SuiteSpec) :
    suiteIssues spec =
      (SuiteRule.broken (spec.getD {})).map (SuiteRule.message (spec.getD {})) := by
  cases spec with
  | none =>
    rw [← SuiteSpec.issues_eq]
    rfl
  | some spec => exact spec.issues_eq

private theorem suiteIssues_eq_nil_iff {spec : Option SuiteSpec} :
    suiteIssues spec = [] ↔ ∃ declared, spec = some declared ∧ declared.IsSound := by
  cases spec with
  | none => simp [suiteIssues]
  | some spec => simp [suiteIssues, SuiteSpec.issues_eq_nil_iff]

namespace Manifest

/-- Programs and suites have names of their own and are in the order of the
    names. -/
structure Ordered (m : Manifest) : Prop where
  programs : Increasing m.programs
  suites : Increasing m.suites

private theorem ordered_toManifest (file : ManifestFile) (path : String) : (file.toManifest path).Ordered :=
  ⟨increasing_rebind (k := Text.trim) (v := Text.trim) file.programs,
    increasing_rebind (k := id) (v := Option.map SuiteSpec.trimmed) file.suites⟩

/-- A manifest that can be used. -/
structure IsSound (m : Manifest) : Prop where
  name : m.name ≠ ""
  programs : ∀ p ∈ m.programs, p.2 ≠ ""
  suites : ∀ s ∈ m.suites, ∃ spec, s.2 = some spec ∧ spec.IsSound
  maxSteps : 0 ≤ m.maxSteps

private theorem programIssues_eq_nil_iff {m : Manifest} :
    m.programIssues = [] ↔ ∀ p ∈ m.programs, p.2 ≠ "" := by
  rw [programIssues, ← List.length_eq_zero_iff, List.length_mergeSort, List.length_eq_zero_iff,
    List.map_eq_nil_iff, List.filter_eq_nil_iff]
  simp

private theorem issues_eq_nil_iff {m : Manifest} : m.issues = [] ↔ m.IsSound := by
  have hname : (if m.name == "" then ["name must be provided"] else []) = [] ↔ m.name ≠ "" := by simp
  have hsuites : m.allSuiteIssues = [] ↔ ∀ s ∈ m.suites, ∃ spec, s.2 = some spec ∧ spec.IsSound := by
    simp only [allSuiteIssues, List.flatMap_eq_nil_iff, List.map_eq_nil_iff, suiteIssues_eq_nil_iff]
  have hsteps : (if m.maxSteps < 0 then ["limits.max_steps must not be negative"] else []) = [] ↔
      0 ≤ m.maxSteps := by simp
  rw [issues, List.append_eq_nil_iff, List.append_eq_nil_iff, List.append_eq_nil_iff, hname,
    programIssues_eq_nil_iff, hsuites, hsteps]
  constructor
  · rintro ⟨⟨⟨hname, hprograms⟩, hsuites⟩, hsteps⟩
    exact ⟨hname, hprograms, hsuites, hsteps⟩
  · rintro ⟨hname, hprograms, hsuites, hsteps⟩
    exact ⟨⟨⟨hname, hprograms⟩, hsuites⟩, hsteps⟩

/-- Something that is wrong with a manifest. -/
inductive Defect where
  | unnamed
  | emptyProgram (name : String)
  | brokenSuite (name : String) (rule : SuiteRule)
  | negativeLimit
  deriving DecidableEq, Repr

namespace Defect

/-- A manifest has the defect. A suite without a declaration counts as an empty
    one. -/
def In (m : Manifest) : Defect → Prop
  | unnamed => m.name = ""
  | emptyProgram name => m.programs.lookup name = some ""
  | brokenSuite name rule =>
    ∃ spec, m.suites.lookup name = some spec ∧ ¬ rule.Holds (spec.getD {})
  | negativeLimit => m.maxSteps < 0

/-- What is said of the defect. -/
def message (m : Manifest) : Defect → String
  | unnamed => "name must be provided"
  | emptyProgram name => "programs." ++ name ++ ": path must be provided"
  | brokenSuite name rule =>
    "suites." ++ name ++ ": " ++ rule.message (((m.suites.lookup name).bind id).getD {})
  | negativeLimit => "limits.max_steps must not be negative"

/-- The suite that the defect is about. -/
def suite? : Defect → Option String
  | brokenSuite name _ => some name
  | _ => none

end Defect

section Defects

variable {m : Manifest}

/-- The programs without a path, in the order of what is said of them. -/
def programDefects (m : Manifest) : List Defect :=
  ((m.programs.filter (·.2 == "")).map fun p => Defect.emptyProgram p.1).mergeSort
    fun a b => !decide (Text.Precedes (b.message m) (a.message m))

/-- The rules that are broken by the suites, suite by suite. -/
def suiteDefects (m : Manifest) : List Defect :=
  m.suites.flatMap fun s => (SuiteRule.broken (s.2.getD {})).map (Defect.brokenSuite s.1)

/-- All that is wrong with a manifest. -/
def defects (m : Manifest) : List Defect :=
  (if m.name = "" then [.unnamed] else []) ++ m.programDefects ++ m.suiteDefects ++
    (if m.maxSteps < 0 then [.negativeLimit] else [])

private theorem programIssues_eq (m : Manifest) : m.programIssues = m.programDefects.map (·.message m) := by
  have hsorted := List.map_mergeSort (f := Defect.message m)
    (s := fun a b => !decide (Text.Precedes b a))
    (l := (m.programs.filter (·.2 == "")).map fun p => Defect.emptyProgram p.1) fun _ _ _ _ => rfl
  rw [programDefects, hsorted, List.map_map]
  rfl

private theorem allSuiteIssues_eq (h : m.Ordered) : m.allSuiteIssues = m.suiteDefects.map (·.message m) := by
  rw [allSuiteIssues, suiteDefects, List.map_flatMap]
  refine List.flatMap_congr fun s hs => ?_
  have hfound : m.suites.lookup s.1 = some s.2 := h.suites.mem_iff_lookup.mp hs
  rw [suiteIssues_eq, List.map_map, List.map_map]
  refine List.map_congr_left fun rule _ => ?_
  simp [Defect.message, hfound]

private theorem issues_eq (h : m.Ordered) : m.issues = m.defects.map (·.message m) := by
  have hname : (if m.name == "" then ["name must be provided"] else []) =
      (if m.name = "" then [Defect.unnamed] else []).map (·.message m) := by
    by_cases hname : m.name = "" <;> simp [hname, Defect.message]
  have hlimit : (if m.maxSteps < 0 then ["limits.max_steps must not be negative"] else []) =
      (if m.maxSteps < 0 then [Defect.negativeLimit] else []).map (·.message m) := by
    by_cases hlimit : m.maxSteps < 0 <;> simp [hlimit, Defect.message]
  rw [issues, hname, programIssues_eq, allSuiteIssues_eq h, hlimit, defects]
  simp only [List.map_append]

private theorem mem_programDefects_iff (h : m.Ordered) {defect : Defect} :
    defect ∈ m.programDefects ↔
      ∃ name, defect = .emptyProgram name ∧ m.programs.lookup name = some "" := by
  simp only [programDefects, List.mem_mergeSort, List.mem_map, List.mem_filter, beq_iff_eq]
  constructor
  · rintro ⟨⟨name, _⟩, ⟨hmem, rfl⟩, rfl⟩
    exact ⟨name, rfl, h.programs.mem_iff_lookup.mp hmem⟩
  · rintro ⟨name, rfl, hfound⟩
    exact ⟨(name, ""), ⟨h.programs.mem_iff_lookup.mpr hfound, rfl⟩, rfl⟩

private theorem mem_suiteDefects_iff (h : m.Ordered) {defect : Defect} :
    defect ∈ m.suiteDefects ↔ ∃ name rule spec, defect = .brokenSuite name rule ∧
      m.suites.lookup name = some spec ∧ ¬ rule.Holds (spec.getD {}) := by
  simp only [suiteDefects, List.mem_flatMap, List.mem_map, SuiteRule.mem_broken_iff]
  constructor
  · rintro ⟨⟨name, spec⟩, hmem, rule, hbroken, rfl⟩
    exact ⟨name, rule, spec, rfl, h.suites.mem_iff_lookup.mp hmem, hbroken⟩
  · rintro ⟨name, rule, spec, rfl, hfound, hbroken⟩
    exact ⟨(name, spec), h.suites.mem_iff_lookup.mpr hfound, rule, hbroken, rfl⟩

private theorem mem_defects_iff (h : m.Ordered) (defect : Defect) : defect ∈ m.defects ↔ defect.In m := by
  simp only [defects, List.mem_append, mem_programDefects_iff h, mem_suiteDefects_iff h,
    List.mem_ite_nil_right, List.mem_singleton]
  cases defect <;> simp [Defect.In]

private theorem nodup_programDefects (h : m.Ordered) : m.programDefects.Nodup := by
  rw [programDefects, (List.mergeSort_perm _ _).nodup_iff]
  have hnames : ((m.programs.filter (·.2 == "")).map Prod.fst).Nodup :=
    h.programs.nodup_names.sublist (List.filter_sublist.map Prod.fst)
  have hinjective : Function.Injective Defect.emptyProgram := fun _ _ => Defect.emptyProgram.inj
  have hmap := hnames.map hinjective
  rwa [List.map_map] at hmap

private theorem nodup_suiteDefects (h : m.Ordered) : m.suiteDefects.Nodup := by
  refine List.nodup_flatMap.mpr ⟨fun s _ => ?_, h.suites.imp fun {a b} hprecedes => ?_⟩
  · exact (SuiteRule.nodup_broken _).map fun _ _ heq => (Defect.brokenSuite.inj heq).2
  · intro defect ha hb
    obtain ⟨rule, -, rfl⟩ := List.mem_map.mp ha
    obtain ⟨rule', -, heq⟩ := List.mem_map.mp hb
    rw [(Defect.brokenSuite.inj heq).1] at hprecedes
    exact Text.Precedes.irrefl _ hprecedes

private theorem nodup_defects (h : m.Ordered) : m.defects.Nodup := by
  have hname : (if m.name = "" then [Defect.unnamed] else []).Nodup := by split <;> simp
  have hlimit : (if m.maxSteps < 0 then [Defect.negativeLimit] else []).Nodup := by split <;> simp
  have hprograms := nodup_programDefects h
  have hsuites := nodup_suiteDefects h
  simp only [defects, List.nodup_append, List.mem_append, mem_programDefects_iff h,
    mem_suiteDefects_iff h, List.mem_ite_nil_right, List.mem_singleton]
  refine ⟨⟨⟨hname, hprograms, ?_⟩, hsuites, ?_⟩, hlimit, ?_⟩ <;> grind

/-- What is wrong with the suites is said suite by suite, in the order of their
    names. -/
theorem pairwise_suites_defects (h : m.Ordered) :
    (m.defects.filterMap Defect.suite?).Pairwise fun a b => a = b ∨ Text.Precedes a b := by
  have hname : (if m.name = "" then [Defect.unnamed] else []).filterMap Defect.suite? = [] := by
    split <;> rfl
  have hlimit : (if m.maxSteps < 0 then [Defect.negativeLimit] else []).filterMap Defect.suite? = [] := by
    split <;> rfl
  have hprograms : m.programDefects.filterMap Defect.suite? = [] := by
    rw [List.filterMap_eq_nil_iff]
    intro defect hdefect
    obtain ⟨name, rfl, -⟩ := (mem_programDefects_iff h).mp hdefect
    rfl
  have hsuites : m.suiteDefects.filterMap Defect.suite? =
      m.suites.flatMap fun s => (SuiteRule.broken (s.2.getD {})).map fun _ => s.1 := by
    rw [suiteDefects, List.filterMap_flatMap]
    refine List.flatMap_congr fun s _ => ?_
    rw [List.filterMap_map]
    exact congrFun List.filterMap_eq_map _
  rw [defects, List.filterMap_append, List.filterMap_append, List.filterMap_append, hname, hprograms,
    hsuites, hlimit, List.append_nil, List.nil_append, List.nil_append, List.pairwise_flatMap]
  refine ⟨fun s _ => ?_, h.suites.imp fun {a b} hprecedes => ?_⟩
  · exact List.pairwise_map.mpr (List.pairwise_of_forall fun _ _ => .inl rfl)
  · intro x hx y hy
    obtain ⟨_, -, rfl⟩ := List.mem_map.mp hx
    obtain ⟨_, -, rfl⟩ := List.mem_map.mp hy
    exact .inr hprecedes

end Defects

/-- The validation of a manifest is exact. It is accepted exactly if it is
    sound; otherwise it is said once of each of its defects, none of them left
    out, and suite by suite in the order of their names. Manifests that are read
    from files have the order that this takes. Every suite of an accepted
    manifest that comes from a repository has exactly one pin, which is the one
    that is fetched, so that fetching it never fails for want of an address or
    of a pin. -/
theorem validate_exact (m : Manifest) :
    (m.validate = .ok m ↔ m.IsSound) ∧
    (m.Ordered → ¬ m.IsSound →
      ∃ defects : List Defect, defects.Nodup ∧ (∀ defect, defect ∈ defects ↔ defect.In m) ∧
        (defects.filterMap Defect.suite?).Pairwise (fun a b => a = b ∨ Text.Precedes a b) ∧
        m.validate = .error ⟨"", .validation (defects.map (·.message m))⟩) ∧
    (∀ (file : ManifestFile) (path : String), (file.toManifest path).Ordered) ∧
    (m.validate = .ok m → ∀ name spec, (name, some spec) ∈ m.suites → spec.isGit = true →
      ∃ pin, spec.pins = [pin] ∧ Suite.revision? spec = some pin.revision ∧
        ∀ cloner cache st final e, Suite.fetch cloner cache st name (some spec) = (final, .error e) →
          e.message ≠ "suite " ++ Text.quote name ++ ": " ++ "git URL required" ∧
          e.message ≠ "suite " ++ Text.quote name ++ ": " ++ Suite.missingRevision.message) := by
  have haccepted : m.validate = .ok m ↔ m.IsSound := by
    rw [← issues_eq_nil_iff, validate, ← List.isEmpty_iff]
    split
    · next hnone => simp [hnone]
    · next hsome => simp [hsome]
  refine ⟨haccepted, fun hordered hbroken => ?_, ordered_toManifest, fun hvalid name spec hmem hgit => ?_⟩
  · refine ⟨m.defects, nodup_defects hordered, mem_defects_iff hordered,
      pairwise_suites_defects hordered, ?_⟩
    have hissues : ¬ m.issues.isEmpty = true := by
      rwa [List.isEmpty_iff, issues_eq_nil_iff]
    rw [validate, if_neg hissues, issues_eq hordered]
  · obtain ⟨_, ⟨⟩, hsound⟩ := (haccepted.mp hvalid).suites _ hmem
    have hpins := hsound.pins
    rw [if_neg (by simpa [SuiteSpec.isGit] using hgit)] at hpins
    obtain ⟨pin, hpin⟩ := hpins
    have hrevision : Suite.revision? spec = some pin.revision := by
      rw [SuiteSpec.revision?_eq, hpin]
      rfl
    have hpinned : Suite.revision? spec ≠ none := by simp [hrevision]
    refine ⟨pin, hpin, hrevision, fun cloner cache st final e h => ⟨?_, ?_⟩⟩
    · exact Suite.message_ne_of_fetch_error hgit hpinned h (by decide)
    · exact Suite.message_ne_of_fetch_error hgit hpinned h (by decide)

/-- A manifest in which nothing is as it should be. -/
def faulty : Manifest :=
  ⟨"/whileplus.yml", "", [("p", "")],
    [("a", none), ("b", some { path := "x", git := "y", dir := "z/.." })], -1⟩

/-- A suite at a tag of a repository. -/
def taggedSuite : SuiteSpec := { git := "/nowhere", tag := "v1" }

/-- A manifest with this suite. -/
def pinnedByTag : Manifest :=
  ⟨"/whileplus.yml", "demo", [], [("s", some taggedSuite)], 0⟩

private theorem isSound_pinnedByTag : pinnedByTag.IsSound where
  name := by decide
  programs := by simp [pinnedByTag]
  suites := by
    intro s hs
    obtain rfl := List.mem_singleton.mp hs
    exact ⟨taggedSuite, rfl, SuiteSpec.isSound_iff.mpr fun rule => by cases rule <;> decide⟩
  maxSteps := by decide

/-- The manifest in which nothing is as it should be is refused, for the
    directory of its second suite among others. The one that is pinned by a tag
    is accepted, and fetching its suite fails only because nothing can be
    cloned. -/
theorem validate_exact_faulty :
    faulty.Ordered ∧ ¬ faulty.IsSound ∧
    (∃ defects : List Defect, .brokenSuite "b" .inside ∈ defects ∧
      faulty.validate = .error ⟨"", .validation (defects.map (·.message faulty))⟩) ∧
    pinnedByTag.validate = .ok pinnedByTag ∧
    Suite.revision? taggedSuite = some ⟨"refs/tags/v1", "v1"⟩ ∧
    ∃ final e, Suite.fetch (fun _ => .error "repository not found") none { disk := ⟨.directory [], "/", ""⟩ }
        "s" (some taggedSuite) = (final, .error e) ∧
      e.message ≠ "suite " ++ Text.quote "s" ++ ": " ++ "git URL required" := by
  have hordered : faulty.Ordered := ⟨by decide, by decide⟩
  have hbroken : ¬ faulty.IsSound := fun h => h.name rfl
  obtain ⟨-, hdefects, -, -⟩ := validate_exact faulty
  obtain ⟨defects, -, hmem, -, herror⟩ := hdefects hordered hbroken
  obtain ⟨hvalid, -, -, hgit⟩ := validate_exact pinnedByTag
  have hvalid := hvalid.mpr isSound_pinnedByTag
  obtain ⟨pin, hpin, hrevision, hfetch⟩ := hgit hvalid "s" taggedSuite List.mem_cons_self (by decide)
  obtain rfl : pin = .tag "v1" := by
    have hpins : taggedSuite.pins = [.tag "v1"] := by decide
    simpa using hpin.symm.trans hpins
  obtain ⟨final, e, hfailed⟩ : ∃ final e, Suite.fetch (fun _ => .error "repository not found") none
      { disk := ⟨.directory [], "/", ""⟩ } "s" (some taggedSuite) = (final, .error e) := ⟨_, _, rfl⟩
  exact ⟨hordered, hbroken, ⟨defects, (hmem _).mpr ⟨_, rfl, by decide⟩, herror⟩, hvalid, hrevision,
    final, e, hfailed, (hfetch _ _ _ _ _ hfailed).1⟩

end Manifest

end WhilePlus
