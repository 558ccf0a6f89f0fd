import WhilePlus.Disk.Basic
import WhilePlus.Manifest.Basic
import WhilePlus.Text.Character
import WhilePlus.Yaml.Typed

namespace WhilePlus

/-- Reads the first document of a YAML file. -/
def FileTree.readYaml : FileTree → Except Error Yaml.Content
  | .file content =>
    match Yaml.read? content with
    | some doc => .ok doc
    | none => .error Yaml.malformed
  | .directory _ => .error (.ofText "yaml: input error: is a directory")

/-- A manifest as it is written. -/
structure ManifestFile where
  name : String := ""
  programs : List (String × String) := []
  suites : List (String × Option SuiteSpec) := []
  maxSteps : Int := 0

namespace ManifestFile

open Yaml

/-- Reads a suite that is written as a mapping; a strict one must have no other
    fields. -/
def readSpec (strict : Bool) : Yaml.Node → Reading (Option SuiteSpec) :=
  readRecord "driver.SuiteSpec" strict
    [.of "path" readText fun s text => { s with path := text },
      .of "git" readText fun s text => { s with git := text },
      .of "rev" readText fun s text => { s with rev := text },
      .of "tag" readText fun s text => { s with tag := text },
      .of "branch" readText fun s text => { s with branch := text },
      .of "dir" readText fun s text => { s with dir := text }]
    {}

/-- Reads one suite on its own: a text is the path of a local one, and of a
    mapping only the fields of a suite count. -/
def readSuite (sheet : Sheet) (name : String) : Yaml.Node → Except Error SuiteSpec
  | .scalar _ _ text => .ok { path := Text.trim text }
  | n@(.mapping _ _ _) =>
    within ("manifest: suite " ++ Text.quote name ++ ": ")
      (((·.getD {}) <$> readSpec false n : Reading SuiteSpec).run sheet)
  | _ => .error (.ofText ("manifest: suite " ++ Text.quote name ++ " must be a path or a mapping"))

/-- Reads the suites one after the other. A name that is no text ends this
    without a result. -/
def readSuitePairs (suites : List (String × Option SuiteSpec)) :
    List (Yaml.Node × Yaml.Node) → Reading (Option (List (String × Option SuiteSpec)))
  | [] => pure (some suites)
  | (key, value) :: rest => do
    let sheet ← read
    match (readText key).run sheet with
    | .error ⟨_, .mismatch problems⟩ => do
      modify fun t => { t with problems := t.problems ++ problems }
      pure none
    | .error e => throw e
    | .ok name =>
      let name := Text.trim (name.getD "")
      if name == "" then throw (.ofText "manifest: suite names must be non-empty")
      else
        match readSuite sheet name value with
        | .ok spec => readSuitePairs (putPair suites name (some spec)) rest
        | .error e => throw e

/-- Reads the suites of a mapping that is tagged as null: each must be a mapping
    with the fields of a suite, or null. -/
def readTaggedSuites : Yaml.Node → Reading (Option (List (String × Option SuiteSpec))) :=
  readMapping
    { typeName := "driver.suiteMap"
      step := fun suites entry => do
        let spec ← readOptional "driver.SuiteSpec" (readSpec true) entry.value
        pure (putPair suites entry.name spec) }
    []

/-- Reads the suites of a manifest. -/
def readSuites (n : Yaml.Node) : Reading (Option (List (String × Option SuiteSpec))) := do
  if (← read).tag n == nullTag then readTaggedSuites n
  else
    reach n fun
      | .mapping _ _ pairs => readSuitePairs [] pairs
      | _ => throw (.ofText "manifest: suites must be a mapping")

/-- Reads the limits of a manifest; the result is the step limit. -/
def readLimits : Yaml.Node → Reading (Option Int) :=
  readRecord "driver.Limits" true [.of "max_steps" readInteger fun _ n => n] 0

/-- Reads a manifest; it must have no other fields. -/
def ofSheet (sheet : Sheet) : Except Error ManifestFile :=
  (·.getD {}) <$> sheet.read (readRecord "driver.manifestFile" true
    [.of "name" readText fun f text => { f with name := text },
      .of "programs" readTextMap fun f programs => { f with programs },
      .of "suites" readSuites fun f suites => { f with suites },
      .of "limits" readLimits fun f maxSteps => { f with maxSteps }]
    {})

end ManifestFile

/-- The suite with white space dropped around every part. -/
def SuiteSpec.trimmed (spec : SuiteSpec) : SuiteSpec :=
  ⟨Text.trim spec.path, Text.trim spec.git, Text.trim spec.rev, Text.trim spec.tag,
    Text.trim spec.branch, Text.trim spec.dir⟩

/-- The manifest that a file means. White space around names and values is
    dropped; of two programs with one name the later wins. -/
def ManifestFile.toManifest (file : ManifestFile) (path : String) : Manifest where
  path := path
  name := Text.trim file.name
  programs := file.programs.foldl
    (fun known p => insertBinding (Text.trim p.1) (Text.trim p.2) known) []
  suites := file.suites.foldl
    (fun known s => insertBinding s.1 (s.2.map SuiteSpec.trimmed) known) []
  maxSteps := file.maxSteps

namespace Manifest

/-- Checks a manifest. -/
def validate (m : Manifest) : Except Error Manifest :=
  if m.issues.isEmpty then .ok m else .error ⟨"", .validation m.issues⟩

/-- Reads a manifest from a file. -/
def load (d : Disk) (path : String) : Except Error Manifest :=
  if path.isEmpty then .error (.ofText "manifest: empty path")
  else
    let path := d.absolute path
    match d.find path with
    | .error trouble =>
      within ("manifest: open " ++ path ++ ": ") (.error (diskError "open" path trouble))
    | .ok tree => do
      let doc ← within ("manifest: parse " ++ path ++ ": ") tree.readYaml
      match doc with
      | none => .error (.ofText ("manifest: " ++ path ++ " is empty"))
      | some sheet => do
        let file ← within ("manifest: parse " ++ path ++ ": ") (ManifestFile.ofSheet sheet)
        (file.toManifest path).validate

/-- The manifest in a directory that is given by its names, or in the nearest
    directory above; the names have the last one first. -/
def findFrom (d : Disk) : List String → Option String
  | [] =>
    let candidate := Path.ofNames true [fileName]
    if d.isFile candidate then some candidate else none
  | name :: outer =>
    let candidate := Path.ofNames true ((name :: outer).reverse ++ [fileName])
    if d.isFile candidate then some candidate else findFrom d outer

/-- The path of the manifest that a path belongs to. -/
def find (d : Disk) (start : String) : Option String :=
  let path := d.absolute start
  let path := if d.isFile path then Path.parent path else path
  findFrom d (Path.names path).reverse

end Manifest

end WhilePlus
