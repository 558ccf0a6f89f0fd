import WhilePlus.Proofs.Suite.Confinement

namespace WhilePlus.Suite

section Stream

variable {path : String} {t t' : FileTree} {a b : List (List UInt8 × List UInt8)}

/-- The files under a path as the checksum sees them: the bytes of the path and
    the content of each, in the order in which they are visited. -/
def listing (path : String) (t : FileTree) : List (List UInt8 × List UInt8) :=
  (filesAt path t).map fun f => (Text.toBytes (relativePath f.1), f.2)

/-- The paths and contents of some files, in turn. -/
def pieces (files : List (List UInt8 × List UInt8)) : List (List UInt8) :=
  files.flatMap fun f => [f.1, f.2]

/-- The sizes of the paths and contents of some files, in turn. -/
def sizes (files : List (List UInt8 × List UInt8)) : List Nat :=
  (pieces files).map List.length

private theorem pieces_cons (f : List UInt8 × List UInt8) (files : List (List UInt8 × List UInt8)) :
    pieces (f :: files) = f.1 :: f.2 :: pieces files := rfl

private theorem checksumBytes_eq (path : String) (t : FileTree) :
    checksumBytes (filesAt path t) = (pieces (listing path t)).flatten := by
  rw [checksumBytes, listing]
  induction filesAt path t with
  | nil => rfl
  | cons f files ih => simp [pieces_cons, ih]

private theorem pieces_injective (h : pieces a = pieces b) : a = b := by
  induction a generalizing b with
  | nil =>
    cases b with
    | nil => rfl
    | cons g b => cases h
  | cons f a ih =>
    cases b with
    | nil => cases h
    | cons g b =>
      simp only [pieces_cons, List.cons.injEq] at h
      rw [ih h.2.2, Prod.ext h.1 h.2.1]

/-- The bytes of the checksum determine the files once the sizes are known. -/
theorem eq_iff_flatten_pieces_eq :
    a = b ↔ (pieces a).flatten = (pieces b).flatten ∧ sizes a = sizes b := by
  rw [sizes, sizes, ← List.eq_iff_flatten_eq]
  exact ⟨congrArg pieces, pieces_injective⟩

/-- All sizes agree, except perhaps one. -/
def OneSizeApart (a b : List (List UInt8 × List UInt8)) : Prop :=
  a.length = b.length ∧ ∃ i, (sizes a).eraseIdx i = (sizes b).eraseIdx i

/-- Pieces with as many bytes in all have the same sizes if all sizes but one
    agree. -/
theorem map_length_eq_of_eraseIdx_eq {ps qs : List (List UInt8)} {i : Nat}
    (hlength : ps.length = qs.length)
    (h : (ps.map List.length).eraseIdx i = (qs.map List.length).eraseIdx i)
    (hbytes : ps.flatten.length = qs.flatten.length) : ps.map List.length = qs.map List.length := by
  induction ps generalizing qs i with
  | nil => rw [List.eq_nil_of_length_eq_zero hlength.symm]
  | cons p ps ih =>
    cases qs with
    | nil => cases hlength
    | cons q qs =>
      simp only [List.flatten_cons, List.length_append] at hbytes
      simp only [List.map_cons] at h ⊢
      cases i with
      | zero =>
        -- the size that may differ is what is left over
        simp only [List.eraseIdx_cons_zero] at h
        rw [List.length_flatten, List.length_flatten, h] at hbytes
        rw [h, Nat.add_right_cancel hbytes]
      | succ i =>
        simp only [List.eraseIdx_cons_succ, List.cons.injEq] at h
        rw [h.1] at hbytes ⊢
        rw [ih (Nat.succ.inj hlength) h.2 (Nat.add_left_cancel hbytes)]

private theorem length_pieces (files : List (List UInt8 × List UInt8)) :
    (pieces files).length = 2 * files.length := by
  induction files with
  | nil => rfl
  | cons f files ih =>
    simp only [pieces_cons, List.length_cons]
    omega

private theorem OneSizeApart.eq (h : OneSizeApart a b) (hbytes : (pieces a).flatten = (pieces b).flatten) :
    a = b := by
  obtain ⟨hlength, i, herase⟩ := h
  have hpieces : (pieces a).length = (pieces b).length := by
    rw [length_pieces, length_pieces, hlength]
  have hsizes := map_length_eq_of_eraseIdx_eq hpieces herase (congrArg List.length hbytes)
  exact eq_iff_flatten_pieces_eq.mpr ⟨hbytes, hsizes⟩

private theorem flatten_pieces_cons (f : List UInt8 × List UInt8)
    (files : List (List UInt8 × List UInt8)) :
    (pieces (f :: files)).flatten = f.1 ++ (f.2 ++ (pieces files).flatten) := by
  rw [pieces_cons, List.flatten_cons, List.flatten_cons]

private theorem length_flatten_pieces_le (h : a.Sublist b) :
    (pieces a).flatten.length ≤ (pieces b).flatten.length := by
  induction h with
  | slnil => exact Nat.le_refl _
  | cons f _ ih =>
    rw [flatten_pieces_cons, List.length_append, List.length_append]
    omega
  | cons_cons f _ ih =>
    rw [flatten_pieces_cons, flatten_pieces_cons]
    simp only [List.length_append]
    omega

/-- Where files were only added, there are more bytes. Every path has a name in
    it, so even an empty file adds some. -/
theorem eq_of_sublist (h : a.Sublist b) (hpaths : ∀ f ∈ b, f.1 ≠ [])
    (hbytes : (pieces a).flatten = (pieces b).flatten) : a = b := by
  induction h with
  | slnil => rfl
  | cons f h _ =>
    -- an added file brings at least the bytes of its path
    have hpath := List.length_pos_iff.mpr (hpaths f List.mem_cons_self)
    have hle := length_flatten_pieces_le h
    have hlength := congrArg List.length hbytes
    rw [flatten_pieces_cons, List.length_append, List.length_append] at hlength
    omega
  | cons_cons f _ ih =>
    rw [flatten_pieces_cons, flatten_pieces_cons] at hbytes
    have hrest := List.append_cancel_left (List.append_cancel_left hbytes)
    rw [ih (fun g hg => hpaths g (List.mem_cons_of_mem _ hg)) hrest]

/-- A change that the checksum tells: at most one size has changed, or files
    were only added, or files were only removed. -/
inductive Telling (a b : List (List UInt8 × List UInt8)) : Prop where
  | resized (h : OneSizeApart a b)
  | added (h : a.Sublist b)
  | removed (h : b.Sublist a)

private theorem eraseIdx_sizes (before after : List (List UInt8 × List UInt8)) (f : List UInt8 × List UInt8)
    (i : Nat) :
    (sizes (before ++ f :: after)).eraseIdx ((sizes before).length + i) =
      sizes before ++ (f.1.length :: f.2.length :: sizes after).eraseIdx i := by
  have hsizes : sizes (before ++ f :: after) = sizes before ++ sizes (f :: after) := by
    simp only [sizes, pieces, List.flatMap_append, List.map_append]
  rw [hsizes, List.eraseIdx_append_of_length_le (Nat.le_add_right _ _), Nat.add_sub_cancel_left]
  rfl

/-- Another content for one file is a telling change, and so is another name
    that leaves the file at its place among the others. -/
theorem telling_replace (before after : List (List UInt8 × List UInt8))
    {f g : List UInt8 × List UInt8} (h : f.1 = g.1 ∨ f.2 = g.2) :
    Telling (before ++ f :: after) (before ++ g :: after) := by
  refine .resized ⟨by simp, ?_⟩
  rcases h with h | h
  · refine ⟨(sizes before).length + 1, ?_⟩
    rw [eraseIdx_sizes, eraseIdx_sizes, h]
    rfl
  · refine ⟨(sizes before).length + 0, ?_⟩
    rw [eraseIdx_sizes, eraseIdx_sizes, h]
    rfl

private theorem Telling.flatten_pieces_eq_iff (h : Telling a b) (ha : ∀ f ∈ a, f.1 ≠ [])
    (hb : ∀ f ∈ b, f.1 ≠ []) : (pieces a).flatten = (pieces b).flatten ↔ a = b := by
  refine ⟨fun hbytes => ?_, fun heq => by rw [heq]⟩
  cases h with
  | resized h => exact h.eq hbytes
  | added h => exact eq_of_sublist h hb hbytes
  | removed h => exact (eq_of_sublist h ha hbytes.symm).symm

/-- No file of a tree is under an empty name. -/
def NoEmptyName (t : FileTree) : Prop :=
  ∀ f ∈ t.files [], ∀ n ∈ f.1, n ≠ ""

private theorem path_ne_nil_of_mem_listing (ht : NoEmptyName t) : ∀ f ∈ listing path t, f.1 ≠ [] := by
  intro f hf
  obtain ⟨g, hg, rfl⟩ := List.mem_map.mp hf
  have hg : g ∈ t.files [] := by
    rw [filesAt] at hg
    split at hg
    · cases hg
    · exact hg
  exact Text.toBytes_ne_nil (Path.ofNames_ne_empty (ht g hg))

/-- After a telling change the bytes of the checksum tell whether anything has
    changed. -/
theorem checksumBytes_eq_iff (ht : NoEmptyName t) (ht' : NoEmptyName t')
    (h : Telling (listing path t) (listing path t')) :
    checksumBytes (filesAt path t) = checksumBytes (filesAt path t') ↔
      listing path t = listing path t' := by
  rw [checksumBytes_eq, checksumBytes_eq]
  exact h.flatten_pieces_eq_iff (path_ne_nil_of_mem_listing ht) (path_ne_nil_of_mem_listing ht')

end Stream

section Locate

variable {cloner : Cloner} {cache : Option String} {st : State} {m : Manifest} {name : String}
  {spec : SuiteSpec} {pinned : LockedSuite} {t : FileTree}

/-- A manifest declares a suite from a repository, and the lockfile pins its
    checkout in a cache. -/
structure IsPinned (cache : Option String) (st : State) (m : Manifest) (name : String)
    (spec : SuiteSpec) (pinned : LockedSuite) : Prop where
  declared : (m.suites.lookup name).bind id = some spec
  isGit : spec.isGit = true
  cached : cache.getD "" ≠ ""
  locked : st.lock.bind (·.find? name) = some pinned

/-- A pinned checkout is used if its checksum is right, and discarded otherwise.
    The premise is that the checkout is there at all. -/
theorem IsPinned.locate_eq (h : IsPinned cache st m name spec pinned)
    (hfound : st.disk.find (checkoutDirectory (cache.getD "") name pinned.version) = .ok t) :
    locate cloner cache st m name =
      if Sha256.hexDigest (checksumBytes
          (filesAt (checkoutDirectory (cache.getD "") name pinned.version) t)) = pinned.checksum then
        (st, .ok (Path.join [checkoutDirectory (cache.getD "") name pinned.version, spec.dir]))
      else locate.refetch cloner cache name st
        (checkoutDirectory (cache.getD "") name pinned.version) pinned spec := by
  have hcached : ¬ (cache.getD "").isEmpty = true := mt String.isEmpty_iff.mp h.cached
  have hsum : checksum st.disk (Path.join [baseDirectory (cache.getD "") name,
      segment pinned.version]) = .ok (Sha256.hexDigest (checksumBytes
        (filesAt (checkoutDirectory (cache.getD "") name pinned.version) t))) := by
    rw [checksum]
    rw [checkoutDirectory] at hfound
    rw [hfound, checkoutDirectory]
  rw [locate, h.declared]
  dsimp only
  rw [if_neg (by simp [h.isGit]), h.locked]
  dsimp only
  rw [if_neg hcached, hsum]
  dsimp only
  simp only [beq_iff_eq]
  rfl

/-- Fetching only adds records. -/
theorem records_fetch (cloner : Cloner) (cache : Option String) (st : State) (name : String)
    (spec : Option SuiteSpec) : st.records <+: (fetch cloner cache st name spec).1.records := by
  rw [fetch]
  dsimp only
  split
  · exact List.prefix_refl _
  split
  · exact List.prefix_refl _
  split
  · exact List.prefix_refl _
  split
  · exact List.prefix_refl _
  split
  · exact List.prefix_refl _
  · exact List.prefix_append _ _

private theorem records_refetch (cloner : Cloner) (cache : Option String) (name : String) (st : State)
    (checkout : String) (pinned : LockedSuite) (spec : SuiteSpec) :
    st.records ++ [staleRecord name pinned.version] <+:
      (locate.refetch cloner cache name st checkout pinned spec).1.records := by
  rw [locate.refetch]
  dsimp only
  split
  · exact List.prefix_refl _
  · rename_i disk _
    have hfetched := records_fetch cloner cache
      { st with disk, records := st.records ++ [staleRecord name pinned.version] } name (some spec)
    rw [fetchPinned]
    split
    all_goals
      rename_i hresult
      rwa [hresult] at hfetched

/-- The digests of two lists of bytes do not collide. -/
def NoCollision (bytes bytes' : List UInt8) : Prop :=
  Sha256.hexDigest bytes = Sha256.hexDigest bytes' → bytes = bytes'

/-- What the checksum of a checkout tells. The bytes that it is computed from
    determine the paths and the contents of the files together with their sizes.
    They do so without the sizes if at most one path or content has changed its
    size, if files were only added, or if files were only removed. Unless the
    digests collide, a change of this kind to a pinned checkout is then noticed:
    the checkout is reported as out of date. -/
theorem checksum_tells_change (path : String) (t t' : FileTree) :
    (listing path t = listing path t' ↔
        checksumBytes (filesAt path t) = checksumBytes (filesAt path t') ∧
          sizes (listing path t) = sizes (listing path t')) ∧
      (NoEmptyName t → NoEmptyName t' → Telling (listing path t) (listing path t') →
        listing path t ≠ listing path t' →
        checksumBytes (filesAt path t) ≠ checksumBytes (filesAt path t') ∧
          ∀ (cloner : Cloner) (cache : Option String) (st : State) (m : Manifest) (name : String)
            (spec : SuiteSpec) (pinned : LockedSuite), IsPinned cache st m name spec pinned →
            path = checkoutDirectory (cache.getD "") name pinned.version →
            st.disk.find path = .ok t' →
            pinned.checksum = Sha256.hexDigest (checksumBytes (filesAt path t)) →
            NoCollision (checksumBytes (filesAt path t')) (checksumBytes (filesAt path t)) →
            st.records ++ [staleRecord name pinned.version] <+:
              (locate cloner cache st m name).1.records) := by
  refine ⟨?_, fun ht ht' htelling hchanged => ?_⟩
  · rw [checksumBytes_eq, checksumBytes_eq]
    exact eq_iff_flatten_pieces_eq
  have hbytes := mt (checksumBytes_eq_iff ht ht' htelling).mp hchanged
  refine ⟨hbytes, fun cloner cache st m name spec pinned hpinned hpath hfound hsum hdigests => ?_⟩
  subst hpath
  rw [hpinned.locate_eq hfound, hsum, if_neg fun heq => hbytes (hdigests heq).symm]
  exact records_refetch ..

/-- The pin of a suite that had one file `a` with the content `bc`. -/
def pinnedSuite : LockedSuite :=
  ⟨"s", "v1", "git+/nowhere@0", "ba7816bf8f01cfea414140de5dae2223b00361a396177a9cb410ff61f20015ad"⟩

/-- A cache with the checkout of that suite. -/
def pinnedState (files : FileTree) : State where
  disk := {
    root := .directory [("c", .directory [("suites", .directory [("s", .directory
      [("v1", files)])])])]
    directory := "/" }
  lock := some ⟨"/whileplus.lock", "demo", "", "", [some pinnedSuite]⟩

/-- Other content of the same size is noticed, and the checkout is fetched
    again. -/
theorem checksum_tells_other_content :
    [staleRecord "s" "v1"] <+: (locate unreachable (some "/c")
      (pinnedState (.directory [("a", .file [98, 100])])) sharedManifest "s").1.records := by
  have hnames (content : List UInt8) : NoEmptyName (.directory [("a", .file content)]) := by
    simp [NoEmptyName, FileTree.files, FileTree.entryFiles]
  have htells := (checksum_tells_change "/c/suites/s/v1" (.directory [("a", .file [98, 99])])
    (.directory [("a", .file [98, 100])])).2 (hnames _) (hnames _)
    (telling_replace [] [] (.inl rfl)) (by decide)
  exact htells.2 unreachable (some "/c") (pinnedState (.directory [("a", .file [98, 100])]))
    sharedManifest "s" _ pinnedSuite ⟨rfl, rfl, by decide, rfl⟩ (by decide) rfl (by decide +kernel)
    fun hdigests => absurd hdigests (by decide +kernel)

/-- A byte that moves from the content of a file to its name is not noticed. -/
theorem checksum_misses_moved_byte :
    listing "/c/suites/s/v1" (.directory [("a", .file [98, 99])]) ≠
        listing "/c/suites/s/v1" (.directory [("ab", .file [99])]) ∧
      checksumBytes (filesAt "/c/suites/s/v1" (.directory [("a", .file [98, 99])])) =
        checksumBytes (filesAt "/c/suites/s/v1" (.directory [("ab", .file [99])])) ∧
      (locate unreachable (some "/c") (pinnedState (.directory [("ab", .file [99])]))
        sharedManifest "s").1.records = [] ∧
      (locate unreachable (some "/c") (pinnedState (.directory [("ab", .file [99])]))
        sharedManifest "s").2.toOption = some "/c/suites/s/v1" := by
  decide +kernel

end Locate

end WhilePlus.Suite
