import WhilePlus.Lockfile.Basic
import WhilePlus.Log
import WhilePlus.Suite.Head

namespace WhilePlus.Suite

/-- A repository that was cloned: for a revision, its commit and its files. -/
structure Repository where
  checkout : String → Except String (String × FileTree)

/-- Clones repositories by their address. -/
abbrev Cloner := String → Except String Repository

/-- What fetching works on. -/
structure State where
  disk : Disk
  lock : Option Lockfile := none
  records : List Record := []

/-- The directory of a suite in the cache. -/
def baseDirectory (cache name : String) : String :=
  Path.join [cache, "suites", segment name]

/-- Makes sure that a suite is checked out below a directory; the result is its
    version and its commit. A checkout at the wanted revision is used as it is. -/
def ensureCheckout (cloner : Cloner) (d : Disk) (base : String) (spec : SuiteSpec) :
    Disk × Except Error (String × String) :=
  match d.makeDirectories base with
  | (d, .error e) => (d, .error e)
  | (d, .ok ()) =>
    match revision? spec with
    | none => (d, .error missingRevision)
    | some revision =>
      if spec.rev != "" && head? d (Path.join [base, segment spec.rev]) == some spec.rev then
        (d, .ok (spec.rev, spec.rev))
      else
        match cloner spec.git with
        | .error text => (d, .error (.ofText ("git clone " ++ spec.git ++ ": " ++ text)))
        | .ok repository =>
          match repository.checkout revision.name with
          | .error text =>
            (d, .error (.ofText ("resolve revision " ++ revision.name ++ ": " ++ text)))
          | .ok (commit, files) =>
            let version := pinnedVersion revision.descriptor commit
            let target := Path.join [base, segment version]
            if d.contains target then (d, .ok (version, commit))
            else
              ({ d with root := d.root.put files (Path.names (d.absolute target)) },
                .ok (version, commit))

/-- The record of a fetched suite. -/
def fetchedRecord (name version commit : String) : Record :=
  ⟨.info, "suite fetched", [("suite", name), ("version", version), ("commit", commit)]⟩

/-- The record of a checkout that is out of date. -/
def staleRecord (name version : String) : Record :=
  ⟨.warn, "suite cache stale, refetching", [("suite", name), ("version", version)]⟩

/-- Fetches a suite; the result is its entry for the lockfile and the directory
    of its fixtures. -/
def fetch (cloner : Cloner) (cache : Option String) (st : State) (name : String)
    (spec : Option SuiteSpec) : State × Except Error (LockedSuite × String) :=
  let cache := cache.getD ""
  if cache.isEmpty then (st, .error (.ofText "suite: fetcher unavailable"))
  else
    let context := "suite " ++ Text.quote name ++ ": "
    match spec with
    | none => (st, .error (.ofText (context ++ "git URL required")))
    | some spec =>
      if !spec.isGit then (st, .error (.ofText (context ++ "git URL required")))
      else
        let base := baseDirectory cache name
        match ensureCheckout cloner st.disk base spec with
        | (disk, .error e) => ({ st with disk }, .error (e.under context))
        | (disk, .ok (version, commit)) =>
          let directory := Path.join [base, segment version]
          match checksum disk directory with
          | .error e =>
            ({ st with disk }, .error (e.under (context ++ "checksum " ++ directory ++ ": ")))
          | .ok sum =>
            let source := "git+" ++ spec.git ++ "@" ++ commit
            ({ st with disk, records := st.records ++ [fetchedRecord name version commit] },
              .ok (⟨name, version, source, sum⟩, Path.join [directory, spec.dir]))

/-- Fetches a suite and pins it in the lockfile; the result is the directory of
    its fixtures. -/
def fetchPinned (cloner : Cloner) (cache : Option String) (st : State) (name : String)
    (spec : SuiteSpec) : State × Except Error String :=
  match fetch cloner cache st name (some spec) with
  | (st, .error e) => (st, .error e)
  | (st, .ok (locked, directory)) =>
    ({ st with lock := st.lock.map (·.put locked) }, .ok directory)

/-- The directory of a suite that a manifest declares. A local one is where the
    manifest says. For one from a repository the pinned checkout is used if its
    checksum is right; otherwise it is removed and the suite is fetched. -/
def locate (cloner : Cloner) (cache : Option String) (st : State) (m : Manifest) (name : String) :
    State × Except Error String :=
  match (m.suites.lookup name).bind id with
  | none =>
    (st, .error (.ofText ("suite " ++ Text.quote name ++ " is not declared in " ++ m.path)))
  | some spec =>
    if !spec.isGit then (st, .ok (m.resolve spec.path))
    else
      let directory := cache.getD ""
      match st.lock.bind (·.find? name) with
      | none => fetchPinned cloner cache st name spec
      | some pinned =>
        if directory.isEmpty then fetchPinned cloner cache st name spec
        else
          let checkout := Path.join [baseDirectory directory name, segment pinned.version]
          match checksum st.disk checkout with
          | .ok sum =>
            if sum == pinned.checksum then (st, .ok (Path.join [checkout, spec.dir]))
            else refetch st checkout pinned spec
          | .error _ => refetch st checkout pinned spec
where
  /-- Removes a checkout that is out of date, and fetches the suite. -/
  refetch (st : State) (checkout : String) (pinned : LockedSuite) (spec : SuiteSpec) :
      State × Except Error String :=
    let st := { st with records := st.records ++ [staleRecord name pinned.version] }
    match st.disk.removeAll checkout with
    | .error e =>
      (st, .error (e.under ("suite " ++ Text.quote name ++ ": discard " ++ checkout ++ ": ")))
    | .ok disk => fetchPinned cloner cache { st with disk } name spec

/-- Where suites are cached: the directory that was asked for, or one in the
    home directory. -/
def cacheDirectory (d : Disk) (asked : String) : Except Error String :=
  let asked := Text.trim asked
  if !asked.isEmpty then .ok (d.absolute asked)
  else if d.home.isEmpty then
    .error (.ofText "suite: resolve home directory: $HOME is not defined")
  else .ok (Path.join [d.home, ".whileplus"])

end WhilePlus.Suite
