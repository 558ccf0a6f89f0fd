import WhilePlus.Proofs.Lockfile.Entries
import WhilePlus.Proofs.Suite.Checksum

namespace WhilePlus.Suite

section Fetch

variable {cloner : Cloner} {cache : Option String} {st final : State} {name : String}
  {spec : SuiteSpec} {locked : LockedSuite} {directory : String}

/-- What a fetch has done if it succeeds: the entry that it returns describes
    the checkout on the disk that it leaves. -/
structure Fetched (cloner : Cloner) (cache : Option String) (st : State) (name : String)
    (spec : SuiteSpec) (final : State) (locked : LockedSuite) (directory : String) : Prop where
  named : locked.name = name
  ensured : ∃ commit, ensureCheckout cloner st.disk (baseDirectory (cache.getD "") name) spec =
    (final.disk, .ok (locked.version, commit))
  verified : checksum final.disk (checkoutDirectory (cache.getD "") name locked.version) =
    .ok locked.checksum
  directory_eq : directory =
    Path.join [checkoutDirectory (cache.getD "") name locked.version, spec.dir]

private theorem lock_fetch (cloner : Cloner) (cache : Option String) (st : State) (name : String)
    (spec : Option SuiteSpec) : (fetch cloner cache st name spec).1.lock = st.lock := by
  rw [fetch]
  dsimp only
  split
  · rfl
  split
  · rfl
  split
  · rfl
  split
  · rfl
  split <;> rfl

/-- A suite that was fetched is there in the way that the cases say. Nothing is
    asked of the cache. -/
theorem fetched_of_fetch
    (h : fetch cloner cache st name (some spec) = (final, .ok (locked, directory))) :
    Fetched cloner cache st name spec final locked directory := by
  rw [fetch] at h
  dsimp only at h
  split at h
  · cases h
  split at h
  · cases h
  split at h
  · cases h
  rename_i disk version commit hensured
  split at h
  · cases h
  rename_i sum hsum
  cases h
  exact ⟨rfl, ⟨commit, hensured⟩, hsum, rfl⟩

/-- Fetching pins the suite if it succeeds, and leaves the lockfile alone
    otherwise. -/
theorem fetchPinned_cases (cloner : Cloner) (cache : Option String) (st : State) (name : String)
    (spec : SuiteSpec) :
    (∃ fetched locked directory, Fetched cloner cache st name spec fetched locked directory ∧
      fetchPinned cloner cache st name spec =
        ({ fetched with lock := st.lock.map (·.put locked) }, .ok directory)) ∨
    ∃ fetched e, fetched.lock = st.lock ∧
      fetchPinned cloner cache st name spec = (fetched, .error e) := by
  have hlock := lock_fetch cloner cache st name (some spec)
  rw [fetchPinned]
  split
  · next fetched e hfetch =>
    rw [hfetch] at hlock
    exact .inr ⟨fetched, e, hlock, rfl⟩
  · next fetched locked directory hfetch =>
    rw [hfetch] at hlock
    exact .inl ⟨fetched, locked, directory, fetched_of_fetch hfetch, by rw [← hlock]⟩

end Fetch

section Locate

variable {cloner : Cloner} {cache : Option String} {st : State} {m : Manifest} {name : String}
  {spec : SuiteSpec} {pinned : LockedSuite}

/-- All that locating a suite from a repository can do: the pinned checkout is
    used if its checksum is right; otherwise it is discarded, if that works, and
    the suite is fetched. -/
inductive Located (cloner : Cloner) (cache : Option String) (st : State) (name : String)
    (spec : SuiteSpec) : State × Except Error String → Prop where
  | kept {pinned : LockedSuite} (hlocked : st.lock.bind (·.find? name) = some pinned)
      (hverified : checksum st.disk (checkoutDirectory (cache.getD "") name pinned.version) =
        .ok pinned.checksum) :
      Located cloner cache st name spec
        (st, .ok (Path.join [checkoutDirectory (cache.getD "") name pinned.version, spec.dir]))
  | undiscarded {pinned : LockedSuite} {e : Error} :
      Located cloner cache st name spec
        ({ st with records := st.records ++ [staleRecord name pinned.version] }, .error e)
  | refetched {pinned : LockedSuite} {disk : Disk}
      (hlocked : st.lock.bind (·.find? name) = some pinned)
      (hremoved : st.disk.removeAll (checkoutDirectory (cache.getD "") name pinned.version) =
        .ok disk) :
      Located cloner cache st name spec (fetchPinned cloner cache
        { st with disk, records := st.records ++ [staleRecord name pinned.version] } name spec)
  | fetched (hunlocked : st.lock.bind (·.find? name) = none) :
      Located cloner cache st name spec (fetchPinned cloner cache st name spec)

private theorem located_refetch (hlocked : st.lock.bind (·.find? name) = some pinned) :
    Located cloner cache st name spec (locate.refetch cloner cache name st
      (checkoutDirectory (cache.getD "") name pinned.version) pinned spec) := by
  rw [locate.refetch]
  dsimp only
  split
  · exact .undiscarded
  · next disk hremoved => exact .refetched hlocked hremoved

/-- Locating a suite from a repository goes one of the ways that there are, if
    it is declared and there is a cache. -/
theorem located_locate (cloner : Cloner) (st : State)
    (hdeclared : (m.suites.lookup name).bind id = some spec) (hgit : spec.isGit = true)
    (hcached : cache.getD "" ≠ "") :
    Located cloner cache st name spec (locate cloner cache st m name) := by
  have hcached : ¬ (cache.getD "").isEmpty = true := mt String.isEmpty_iff.mp hcached
  rw [locate, hdeclared]
  dsimp only
  rw [if_neg (by simp [hgit])]
  split
  · next hunlocked => exact .fetched hunlocked
  next pinned hlocked =>
    rw [if_neg hcached]
    split
    · next sum hsum =>
      split
      · next hright =>
        rw [beq_iff_eq] at hright
        exact .kept hlocked (hright ▸ hsum)
      · exact located_refetch hlocked
    · exact located_refetch hlocked

/-- A checksum is that of something which stands under the path. -/
theorem find_of_checksum {d : Disk} {path sum : String} (h : checksum d path = .ok sum) :
    ∃ t, d.find path = .ok t ∧ Sha256.hexDigest (checksumBytes (filesAt path t)) = sum := by
  rw [checksum] at h
  split at h
  · cases h
  · next t hfound => exact ⟨t, hfound, Except.ok.inj h⟩

/-- A suite whose checkout has the right checksum is located without any change,
    and without a look at the repository. -/
theorem IsPinned.locate_of_verified (h : IsPinned cache st m name spec pinned)
    (hverified : checksum st.disk (checkoutDirectory (cache.getD "") name pinned.version) =
      .ok pinned.checksum) :
    locate cloner cache st m name =
      (st, .ok (Path.join [checkoutDirectory (cache.getD "") name pinned.version, spec.dir])) := by
  obtain ⟨t, hfound, hsum⟩ := find_of_checksum hverified
  rw [h.locate_eq hfound, if_pos hsum]

/-- A suite from a repository has been located in a directory and is pinned,
    where the lockfile was `lock` before and is `lock'` now. -/
structure Pins (cache : Option String) (name : String) (spec : SuiteSpec) (lock : Lockfile)
    (final : State) (directory : String) (lock' : Lockfile) (pinned : LockedSuite) : Prop where
  lock_eq : final.lock = some lock'
  found : lock'.find? name = some pinned
  /-- The checksum of the entry is that of the checkout of its version. -/
  verified : checksum final.disk (checkoutDirectory (cache.getD "") name pinned.version) =
    .ok pinned.checksum
  directory_eq : directory =
    Path.join [checkoutDirectory (cache.getD "") name pinned.version, spec.dir]
  /-- The entries with other names are the same, in the same order. -/
  others : otherEntries name lock'.suites = otherEntries name lock.suites
  rest : lock' = { lock with suites := lock'.suites }

/-- Fetching a suite pins the checkout that it leaves, or fails and leaves the
    lockfile alone. -/
theorem pins_fetchPinned {lock : Lockfile} (hlock : st.lock = some lock) :
    (∃ final directory lock' pinned,
      fetchPinned cloner cache st name spec = (final, .ok directory) ∧
        Pins cache name spec lock final directory lock' pinned) ∨
    ∃ final e, fetchPinned cloner cache st name spec = (final, .error e) ∧
      final.lock = some lock := by
  obtain ⟨fetched, locked, directory, hfetched, heq⟩ | ⟨fetched, e, hkept, heq⟩ :=
    fetchPinned_cases cloner cache st name spec
  · refine .inl ⟨_, directory, lock.put locked, locked, heq, ?_⟩
    obtain ⟨rfl, -, hverified, hdirectory⟩ := hfetched
    exact {
      lock_eq := by rw [hlock]; rfl
      found := lock.find?_put_self locked
      verified := hverified
      directory_eq := hdirectory
      others := otherEntries_putSuite locked lock.suites
      rest := rfl }
  · exact .inr ⟨fetched, e, heq, hkept.trans hlock⟩

private theorem Located.pins {lock : Lockfile} {result : State × Except Error String}
    (h : Located cloner cache st name spec result) (hlock : st.lock = some lock) :
    (∃ final directory lock' pinned, result = (final, .ok directory) ∧
      Pins cache name spec lock final directory lock' pinned) ∨
    ∃ final e, result = (final, .error e) ∧ final.lock = some lock := by
  cases h with
  | @kept pinned hlocked hverified =>
    rw [hlock] at hlocked
    exact .inl ⟨st, _, lock, pinned, rfl, hlock, hlocked, hverified, rfl, rfl, rfl⟩
  | undiscarded =>
    refine .inr ⟨_, _, rfl, ?_⟩
    exact hlock
  | refetched _ _ => exact pins_fetchPinned hlock
  | fetched _ => exact pins_fetchPinned hlock

private theorem lock_of_locate_error {lock : Lockfile} {final : State} {e : Error}
    (hcached : cache.getD "" ≠ "") (hlock : st.lock = some lock)
    (h : locate cloner cache st m name = (final, .error e)) : final.lock = some lock := by
  cases hdeclared : (m.suites.lookup name).bind id with
  | none =>
    rw [locate, hdeclared] at h
    cases h
    exact hlock
  | some spec =>
    cases hgit : spec.isGit with
    | false =>
      rw [locate, hdeclared] at h
      simp [hgit] at h
    | true =>
      have hlocated := located_locate cloner st hdeclared hgit hcached
      rw [h] at hlocated
      obtain ⟨_, _, _, _, heq, _⟩ | ⟨_, _, heq, hkept⟩ := hlocated.pins hlock
      · cases heq
      · cases heq
        exact hkept

/-- Locating a suite establishes a pin whose checksum was verified, and then
    keeps it. Once a suite from a repository has been located, the lockfile has
    an entry for it with the checksum of the checkout of its version, the result
    is the directory of the suite in that checkout, and all other entries are as
    before, in their order. If it is located again, whatever can be cloned by
    then, the result is the same and neither the lockfile nor the disk changes.
    A failure leaves the lockfile alone, and a local suite leaves everything
    alone. -/
theorem locate_pins (cloner : Cloner) (cache : Option String) (st : State) (lock : Lockfile)
    (m : Manifest) (name : String) (hcached : cache.getD "" ≠ "") (hlock : st.lock = some lock) :
    (∀ spec, (m.suites.lookup name).bind id = some spec → spec.isGit = true →
      ∀ final directory, locate cloner cache st m name = (final, .ok directory) →
        (∃ lock' pinned, Pins cache name spec lock final directory lock' pinned) ∧
          ∀ cloner', locate cloner' cache final m name = (final, .ok directory)) ∧
      (∀ spec, (m.suites.lookup name).bind id = some spec → spec.isGit = false →
        locate cloner cache st m name = (st, .ok (m.resolve spec.path))) ∧
      ∀ final e, locate cloner cache st m name = (final, .error e) → final.lock = some lock := by
  refine ⟨fun spec hdeclared hgit final directory h => ?_, fun spec hdeclared hlocal => ?_,
    fun final e h => lock_of_locate_error hcached hlock h⟩
  · have hlocated := located_locate cloner st hdeclared hgit hcached
    rw [h] at hlocated
    obtain ⟨_, _, lock', pinned, heq, hpins⟩ | ⟨_, _, heq, _⟩ := hlocated.pins hlock
    · cases heq
      refine ⟨⟨lock', pinned, hpins⟩, fun cloner' => ?_⟩
      have hagain : IsPinned cache final m name spec pinned :=
        ⟨hdeclared, hgit, hcached, by rw [hpins.lock_eq]; exact hpins.found⟩
      rw [hpins.directory_eq]
      exact hagain.locate_of_verified hpins.verified
    · cases heq
  · rw [locate, hdeclared]
    simp [hlocal]

/-- A pair with a result is known from its first part and the result. -/
theorem eq_of_toOption {x : State × Except Error String} {a : String} (h : x.2.toOption = some a) :
    x = (x.1, .ok a) := by
  obtain ⟨final, result⟩ := x
  cases result with
  | error e => cases h
  | ok b =>
    cases h
    rfl

/-- A cloner that finds one repository, with one commit. -/
def mirror : Cloner :=
  fun _ => .ok ⟨fun _ => .ok ("0123456789abcdef0123456789abcdef01234567",
    .directory [("a", .file [98, 99])])⟩

/-- A checkout that has been changed is discarded, and the suite is pinned to
    what is fetched in its place; it is then located without the repository. -/
theorem locate_pins_changed :
    ∃ final lock' pinned,
      locate mirror (some "/c") (pinnedState (.directory [("a", .file [98, 100])])) sharedManifest
        "s" = (final, .ok "/c/suites/s/0_0123456789abcdef0123456789abcdef01234567") ∧
      final.lock = some lock' ∧ lock'.find? "s" = some pinned ∧
      checksum final.disk (checkoutDirectory "/c" "s" pinned.version) = .ok pinned.checksum ∧
      locate unreachable (some "/c") final sharedManifest "s" =
        (final, .ok "/c/suites/s/0_0123456789abcdef0123456789abcdef01234567") := by
  have hpins := locate_pins mirror (some "/c") (pinnedState (.directory [("a", .file [98, 100])]))
    _ sharedManifest "s" (by decide) rfl
  have hresult := eq_of_toOption (x := locate mirror (some "/c")
    (pinnedState (.directory [("a", .file [98, 100])])) sharedManifest "s")
    (a := "/c/suites/s/0_0123456789abcdef0123456789abcdef01234567") (by decide +kernel)
  obtain ⟨⟨lock', pinned, hpinned⟩, hagain⟩ := hpins.1 _ rfl rfl _ _ hresult
  exact ⟨_, lock', pinned, hresult, hpinned.lock_eq, hpinned.found, hpinned.verified,
    hagain unreachable⟩

end Locate

end WhilePlus.Suite
