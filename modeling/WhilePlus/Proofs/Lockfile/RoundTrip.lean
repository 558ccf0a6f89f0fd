import WhilePlus.Document.Timestamp
import WhilePlus.Proofs.Disk.Rooted
import WhilePlus.Proofs.Lockfile.Order
import WhilePlus.Proofs.Text.Bytes

namespace WhilePlus

namespace Timestamp

variable {t : Timestamp}

private theorem lockText_eq (t : Timestamp) : ∃ rest, t.lockText = padded 4 t.year ++ rest ++ "Z" := by
  refine ⟨"-" ++ padded 2 t.month ++ "-" ++ padded 2 t.day ++ "T" ++ padded 2 t.hour ++ ":" ++
    padded 2 t.minute ++ ":" ++ padded 2 t.second, ?_⟩
  simp only [lockText, dateTime, String.append_assoc]

private theorem padded_ne_empty {width : Nat} (h : 0 < width) (n : Nat) : padded width n ≠ "" := by
  intro hempty
  have hlist := congrArg String.toList hempty
  rw [padded, String.toList_ofList] at hlist
  obtain ⟨hzeros, hdigits⟩ := List.append_eq_nil_iff.mp hlist
  rw [hdigits, List.replicate_eq_nil_iff] at hzeros
  exact absurd hzeros (Nat.ne_of_gt h)

private theorem trim_lockText (t : Timestamp) : Text.trim t.lockText = t.lockText := by
  obtain ⟨rest, hrest⟩ := t.lockText_eq
  have hyear : Text.trim (padded 4 t.year) = padded 4 t.year := by
    refine Text.trim_eq_self_of_forall fun c hc => ?_
    rw [padded, String.toList_ofList] at hc
    exact Text.isBlank_of_mem_digits _ _ _ c hc
  rw [hrest]
  exact Text.trim_append hyear (by decide) (padded_ne_empty (by decide) t.year) (by decide) rest

private theorem lockText_ne_empty (t : Timestamp) : t.lockText ≠ "" := by
  simp [lockText]

end Timestamp

/-- The record that a text is read as, if it is one. -/
def LockRecord.read? (bytes : List UInt8) : Option LockRecord :=
  match (FileTree.file bytes).readYaml with
  | .ok (some sheet) => (LockRecord.ofSheet sheet).toOption
  | _ => none

/-- What is written for a record is read as the record. -/
def LockRecord.ReadsBack (r : LockRecord) : Prop :=
  LockRecord.read? (Text.toBytes r.write) = some r

instance (r : LockRecord) : Decidable r.ReadsBack :=
  inferInstanceAs (Decidable (_ = _))

namespace Lockfile

section Disk

variable {d d' : Disk} {lock saved : Lockfile} {now path : String} {bytes : List UInt8} {r : LockRecord}

/-- A lockfile is loaded if there is a file under its path and its text is that
    of a record. -/
theorem load_of_read? (hpath : path ≠ "") (hfound : d.find (d.absolute path) = .ok (.file bytes))
    (h : LockRecord.read? bytes = some r) : load d path = .ok (r.toLockfile (d.absolute path)) := by
  -- the equation of this definition takes long to prove, since the file is read on the way
  delta LockRecord.read? at h
  split at h
  · next sheet hsheet =>
    cases hread : LockRecord.ofSheet sheet with
    | error e => rw [hread] at h; cases h
    | ok read =>
      rw [hread] at h
      cases h
      rw [load, if_neg (mt String.isEmpty_iff.mp hpath)]
      dsimp only
      rw [hfound]
      dsimp only
      rw [hsheet]
      show within _ (LockRecord.ofSheet sheet >>= fun r => .ok (r.toLockfile (d.absolute path))) = _
      rw [hread]
      rfl
  · cases h

/-- What a successful save writes, and where: the record of the stamped
    lockfile, at the absolute form of the path. An empty path would stand for
    the path that the lockfile has of its own. -/
theorem write_of_save (hpath : path ≠ "") (h : lock.save d now path = (saved, .ok d')) :
    saved = lock.stamped now (d.absolute path) ∧
      d.write (d.absolute path) (Text.toBytes saved.toRecord.write) = .ok d' := by
  have hpath : ¬ path.isEmpty = true := mt String.isEmpty_iff.mp hpath
  rw [save, if_neg hpath, if_neg hpath] at h
  dsimp only at h
  obtain ⟨hsaved, hwrite⟩ := Prod.mk.inj h
  rw [hsaved] at hwrite
  exact ⟨hsaved.symm, within_eq_ok_iff.mp hwrite⟩

private theorem normalize_stamped (lock : Lockfile) (now path : String) :
    (lock.stamped now path).normalize = lock.stamped now path :=
  normalize_normalize _

/-- A lockfile that was saved is loaded as it was saved. Beside the success of
    the save only two things are needed: no white space around the time stamp,
    and a reader that reads back what the writer writes. -/
theorem load_save (hrooted : Path.isAbsolute d.directory = true) (hpath : path ≠ "")
    (hsave : lock.save d now path = (saved, .ok d'))
    (hgenerated : Text.trim saved.generated = saved.generated) (hyaml : saved.toRecord.ReadsBack) :
    d'.directory = d.directory ∧
      d'.find (d'.absolute path) = .ok (.file (Text.toBytes saved.toRecord.write)) ∧
      load d' path = .ok saved := by
  obtain ⟨hsaved, hwrite⟩ := write_of_save hpath hsave
  rw [Disk.absolute, Path.absolute_eq_ofNames hrooted] at hwrite
  obtain ⟨hdirectory, hfound⟩ := Disk.find_write (Path.isName_of_mem_names _) hwrite
  rw [← Path.absolute_eq_ofNames hrooted, ← hdirectory] at hfound
  refine ⟨hdirectory, hfound, ?_⟩
  rw [load_of_read? hpath hfound hyaml]
  have hplace : d'.absolute path = saved.path := by
    rw [Disk.absolute, hdirectory, hsaved]
    rfl
  rw [hplace, toLockfile_toRecord (hsaved ▸ normalize_stamped _ _ _) hgenerated]

private theorem stamped_of_normal (hnormal : lock.normalize = lock) (hgenerated : lock.generated ≠ "") :
    lock.stamped now lock.path = lock := by
  have hgenerated : ¬ lock.generated.isEmpty = true := mt String.isEmpty_iff.mp hgenerated
  rw [stamped, if_neg hgenerated]
  exact hnormal

/-- Saving a lockfile once more, where it was saved, changes nothing. It has a
    time stamp by then, so the present time is not asked for. -/
theorem save_again (hrooted : Path.isAbsolute d.directory = true) (hpath : path ≠ "")
    (hsave : lock.save d now path = (saved, .ok d'))
    (hgenerated : Text.trim saved.generated = saved.generated) (hne : saved.generated ≠ "")
    (hyaml : saved.toRecord.ReadsBack) (now' : String) :
    ∃ d'', saved.save d' now' path = (saved, .ok d'') ∧ load d'' path = .ok saved := by
  obtain ⟨hdirectory, hfound, -⟩ := load_save hrooted hpath hsave hgenerated hyaml
  obtain ⟨hsaved, -⟩ := write_of_save hpath hsave
  have hplace : d'.absolute path = saved.path := by
    rw [Disk.absolute, hdirectory, hsaved]
    rfl
  have hstamped : saved.stamped now' (d'.absolute path) = saved := by
    rw [hplace]
    exact stamped_of_normal (hsaved ▸ normalize_stamped _ _ _) hne
  obtain ⟨d'', hwritten⟩ := Disk.exists_write hfound (Text.toBytes saved.toRecord.write)
  have hagain : saved.save d' now' path = (saved, .ok d'') := by
    have hpath : ¬ path.isEmpty = true := mt String.isEmpty_iff.mp hpath
    rw [save, if_neg hpath, if_neg hpath]
    dsimp only
    rw [hstamped, hwritten]
    rfl
  rw [← hdirectory] at hrooted
  exact ⟨d'', hagain, (load_save hrooted hpath hagain hgenerated hyaml).2.2⟩

end Disk

section Map

variable {project tool generated : String} {entries : List LockedSuite} {lock : Lockfile}

/-- A lockfile is the map that comes from putting entries, one after the other,
    into a new one: its names are strictly increasing, and under each name is
    the last entry that was put there. -/
structure IsMapOf (lock : Lockfile) (project tool generated : String) (entries : List LockedSuite) :
    Prop where
  sorted : ∃ suites : List LockedSuite, lock.suites = suites.map some ∧
    (suites.map LockedSuite.name).Pairwise Text.Precedes
  /-- Where names are what their bytes spell, it is their bytes that increase.
      -/
  sortedBytes : (∀ s ∈ entries, Text.ofBytes (Text.toBytes s.name) = s.name) →
    ((lock.suites.filterMap id).map fun s => Text.toBytes s.name).Pairwise (· < ·)
  found : ∀ name, lock.find? name =
    (entries.filter (·.name == name)).getLast?.map LockedSuite.trimmed
  project_eq : lock.project = Text.trim project
  tool_eq : lock.tool = Text.trim tool
  generated_eq : lock.generated = generated

private theorem mem_of_mem_entryNames_new {name : String}
    (h : name ∈ entryNames ((new project tool generated).putAll entries).suites) :
    ∃ s ∈ entries, s.name = name :=
  List.mem_map.mp ((mem_entryNames_putAll h).resolve_right (by simp [new, entryNames]))

private theorem find?_stamped (h : ∀ n ∈ entryNames lock.suites, Text.trim n = n) (now path name : String) :
    (lock.stamped now path).find? name = (lock.find? name).map LockedSuite.trimmed :=
  @find?_normalize { lock with path := path, generated := _ } h name

private theorem isMapOf_stamped (hnames : ∀ s ∈ entries, Text.trim s.name = s.name) (hne : generated ≠ "")
    (now path : String) :
    (((new project tool generated).putAll entries).stamped now path).IsMapOf project tool generated
      entries := by
  have hrest := putAll_eq (new project tool generated) entries
  have htrimmed : ∀ n ∈ entryNames ((new project tool generated).putAll entries).suites,
      Text.trim n = n := by
    intro n hn
    obtain ⟨s, hs, rfl⟩ := mem_of_mem_entryNames_new hn
    exact hnames s hs
  have hstrict := strict_normalizeSuites htrimmed (nodup_entryNames_putAll List.nodup_nil)
  exact {
    sorted := ⟨_, rfl, hstrict⟩
    sortedBytes := by
      intro hspelled
      have hspelled' : ∀ s ∈ normalizeSuites ((new project tool generated).putAll entries).suites,
          Text.ofBytes (Text.toBytes s.name) = s.name := by
        intro s hs
        have hname := ((normalizeSuites_perm _).map LockedSuite.name).mem_iff.mp
          (List.mem_map_of_mem hs)
        rw [map_name_trimmedEntries htrimmed] at hname
        obtain ⟨e, he, heq⟩ := mem_of_mem_entryNames_new hname
        rw [← heq]
        exact hspelled e he
      rw [stamped, normalize, filterMap_map_some, List.pairwise_map]
      exact (List.pairwise_map.mp hstrict).imp_of_mem fun ha hb hlt =>
        hlt.bytes_lt (hspelled' _ ha) (hspelled' _ hb)
    found := by
      intro name
      rw [find?_stamped htrimmed, find?_putAll]
      exact congrArg _ Option.or_none
    project_eq := by
      rw [stamped, hrest]
      exact Text.trim_trim project
    tool_eq := by
      rw [stamped, hrest]
      exact Text.trim_trim tool
    generated_eq := by
      rw [stamped, hrest]
      exact if_neg (mt String.isEmpty_iff.mp hne) }

/-- A lockfile is a sorted map that survives the disk. Entries are put one after
    the other into a new lockfile, which is saved and loaded again; their names
    have no white space around them, and what is written is read back as the
    record that it was written for. Then the names of the loaded lockfile are
    strictly increasing, under each name is the last entry that was put there,
    trimmed, and the rest is that of the new lockfile. Saving and loading once
    more gives the same lockfile, because one that is in order stays as it is,
    also when it becomes a record and a lockfile again. -/
theorem load_save_putAll (project tool : String) (t : Timestamp) (entries : List LockedSuite)
    (hnames : ∀ s ∈ entries, Text.trim s.name = s.name) (d d' : Disk) (now path : String)
    (saved : Lockfile) (hrooted : Path.isAbsolute d.directory = true)
    (hsave : ((new project tool t.lockText).putAll entries).save d now path = (saved, .ok d'))
    (hyaml : saved.toRecord.ReadsBack) :
    (∃ loaded, load d' path = .ok loaded ∧ loaded.IsMapOf project tool t.lockText entries ∧
      ∀ now', ∃ d'', (loaded.save d' now' path).2 = .ok d'' ∧ load d'' path = .ok loaded) ∧
    (∀ lock : Lockfile, lock.normalize.normalize = lock.normalize) ∧
    ∀ lock : Lockfile, lock.normalize = lock → Text.trim lock.generated = lock.generated →
      lock.toRecord.toLockfile lock.path = lock := by
  have hpath : path ≠ "" := by
    rintro rfl
    rw [save, putAll_eq] at hsave
    cases hsave
  have hmap : saved.IsMapOf project tool t.lockText entries := by
    rw [(write_of_save hpath hsave).1]
    exact isMapOf_stamped hnames t.lockText_ne_empty now _
  have hgenerated : Text.trim saved.generated = saved.generated := by
    rw [hmap.generated_eq, t.trim_lockText]
  have hne : saved.generated ≠ "" := hmap.generated_eq ▸ t.lockText_ne_empty
  refine ⟨⟨saved, (load_save hrooted hpath hsave hgenerated hyaml).2.2, hmap, fun now' => ?_⟩,
    normalize_normalize, fun lock => toLockfile_toRecord⟩
  obtain ⟨d'', hagain, hload⟩ := save_again hrooted hpath hsave hgenerated hne hyaml now'
  exact ⟨d'', congrArg Prod.snd hagain, hload⟩

/-- Entries of which the last replaces the first. -/
def replacedEntries : List LockedSuite :=
  [⟨"b", "v1", "git+x@0", "1"⟩, ⟨"a", "v1", "git+y@0", "2"⟩, ⟨"b", " v2\n", "git+x@1", "3"⟩]

/-- A disk on which the working directory is empty. -/
def emptyDisk : Disk :=
  { root := .directory [], directory := "/" }

private theorem eq_of_isOk {x : Lockfile × Except Error Disk} (h : x.2.isOk = true) :
    ∃ d, x = (x.1, .ok d) := by
  obtain ⟨lock, result⟩ := x
  cases result with
  | error e => cases h
  | ok d => exact ⟨d, rfl⟩

private theorem toRecord_replaced :
    (((new " demo" "whilep" (Timestamp.ofSeconds 0 0).lockText).putAll replacedEntries).stamped ""
      "/whileplus.lock").toRecord =
      ⟨"demo", (Timestamp.ofSeconds 0 0).lockText, "whilep",
        [⟨"a", "v1", "git+y@0", "2"⟩, ⟨"b", "v2", "git+x@1", "3"⟩]⟩ := by
  have hput : ((new " demo" "whilep" (Timestamp.ofSeconds 0 0).lockText).putAll
      replacedEntries).suites =
      [some ⟨"b", " v2\n", "git+x@1", "3"⟩, some ⟨"a", "v1", "git+y@0", "2"⟩] := by
    decide
  have hsorted : normalizeSuites [some ⟨"b", " v2\n", "git+x@1", "3"⟩, some ⟨"a", "v1", "git+y@0", "2"⟩] =
      [⟨"a", "v1", "git+y@0", "2"⟩, ⟨"b", "v2", "git+x@1", "3"⟩] :=
    normalizeSuites_of_strict (by decide) (by decide)
  rw [stamped, toRecord_normalize, hput, hsorted]
  decide

/-- The last entry of a name is the one that is loaded again, without the white
    space around its version. -/
theorem load_save_putAll_replaced :
    ∃ d' loaded, load d' "whileplus.lock" = .ok loaded ∧
      loaded.find? "a" = some ⟨"a", "v1", "git+y@0", "2"⟩ ∧
      loaded.find? "b" = some ⟨"b", "v2", "git+x@1", "3"⟩ ∧ loaded.find? "c" = none ∧
      loaded.project = "demo" := by
  have hok : (((new " demo" "whilep" (Timestamp.ofSeconds 0 0).lockText).putAll replacedEntries).save
      emptyDisk "" "whileplus.lock").2.isOk = true := by
    decide +kernel
  obtain ⟨d', hsave⟩ := eq_of_isOk hok
  have hyaml : (((new " demo" "whilep" (Timestamp.ofSeconds 0 0).lockText).putAll replacedEntries).save
      emptyDisk "" "whileplus.lock").1.toRecord.ReadsBack := by
    rw [(write_of_save (by decide) hsave).1]
    have hplace : emptyDisk.absolute "whileplus.lock" = "/whileplus.lock" := by decide
    rw [hplace, toRecord_replaced]
    decide +kernel
  obtain ⟨⟨loaded, hload, hmap, -⟩, -⟩ := load_save_putAll " demo" "whilep" (Timestamp.ofSeconds 0 0)
    replacedEntries (by decide) emptyDisk d' "" "whileplus.lock" _ (by decide) hsave hyaml
  refine ⟨d', loaded, hload, ?_⟩
  rw [hmap.found, hmap.found, hmap.found, hmap.project_eq]
  decide

end Map

end Lockfile

end WhilePlus
