import WhilePlus.Lockfile.Basic
import WhilePlus.Manifest.File
import WhilePlus.Yaml.Writer

namespace WhilePlus

/-- A lockfile as it is written. -/
structure LockRecord where
  project : String := ""
  generated : String := ""
  tool : String := ""
  suites : List LockedSuite := []
  deriving DecidableEq, Repr

namespace LockRecord

open Yaml

/-- Reads an entry. -/
def readSuite : Yaml.Node → Reading (Option LockedSuite) :=
  readRecord "driver.suiteDisk" true
    [.of "name" readText fun s text => { s with name := text },
      .of "version" readText fun s text => { s with version := text },
      .of "source" readText fun s text => { s with source := text },
      .of "checksum" readText fun s text => { s with checksum := text }]
    ⟨"", "", "", ""⟩

/-- Reads a lockfile; it must have no other fields. -/
def ofSheet (sheet : Sheet) : Except Error LockRecord :=
  (·.getD {}) <$> sheet.read (readRecord "driver.lockfileDisk" true
    [.of "project" readText fun f text => { f with project := text },
      .of "generated" readText fun f text => { f with generated := text },
      .of "tool" readText fun f text => { f with tool := text },
      .of "suites" (readList "[]driver.suiteDisk" readSuite) fun f suites => { f with suites }]
    {})

/-- The lines of an entry. -/
def writeSuite (s : LockedSuite) : String :=
  writeField 4 "  - " "name" s.name ++ writeField 4 "    " "version" s.version ++
    writeField 4 "    " "source" s.source ++ writeField 4 "    " "checksum" s.checksum

/-- The text of a lockfile. -/
def write (r : LockRecord) : String :=
  writeField 0 "" "project" r.project ++ writeField 0 "" "generated" r.generated ++
    writeField 0 "" "tool" r.tool ++
    (if r.suites.isEmpty then "suites: []\n"
    else "suites:\n" ++ String.join (r.suites.map writeSuite))

/-- The lockfile that a record means. -/
def toLockfile (r : LockRecord) (path : String) : Lockfile :=
  Lockfile.normalize ⟨path, r.project, Text.trim r.generated, r.tool, r.suites.map some⟩

end LockRecord

namespace Lockfile

/-- The record that a lockfile is written as. -/
def toRecord (lock : Lockfile) : LockRecord :=
  ⟨lock.project, lock.generated, lock.tool, lock.suites.filterMap id⟩

/-- Reads a lockfile from a file. -/
def load (d : Disk) (path : String) : Except Error Lockfile :=
  if path.isEmpty then .error (.ofText "lockfile: empty path")
  else
    let path := d.absolute path
    match d.find path with
    | .error trouble => .error (diskError "open" path trouble)
    | .ok tree =>
      within ("lockfile: parse " ++ path ++ ": ") do
        match ← tree.readYaml with
        | none => .error (.ofText "EOF")
        | some sheet => do
          let r ← LockRecord.ofSheet sheet
          .ok (r.toLockfile path)

/-- The lockfile as it is once it is written to a path. -/
def stamped (lock : Lockfile) (now path : String) : Lockfile :=
  normalize { lock with
    path := path
    generated := if lock.generated.isEmpty then now else lock.generated }

/-- Writes a lockfile, to its own path if none is given; the result is the
    lockfile as it was written, and the disk, or the error that writing met. -/
def save (d : Disk) (now : String) (lock : Lockfile) (path : String) :
    Lockfile × Except Error Disk :=
  let path := if path.isEmpty then lock.path else path
  if path.isEmpty then (lock, .error (.ofText "lockfile: missing path"))
  else
    let path := d.absolute path
    let lock := lock.stamped now path
    (lock, within ("lockfile: write " ++ path ++ ": ")
      (d.write path (Text.toBytes lock.toRecord.write)))

end Lockfile

end WhilePlus
