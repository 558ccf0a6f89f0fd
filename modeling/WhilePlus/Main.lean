import Std.Time.DateTime.Timestamp
import WhilePlus.CommandLine.Command
import WhilePlus.Disk.Change
import WhilePlus.Document.Timestamp

namespace WhilePlus

/-- The tree at a path, if anything can be read there. -/
partial def readTree (sight : Sight) : IO (Option FileTree) := do
  try
    let real ← IO.FS.realPath sight.path
    if ← real.isDir then
      if sight.deep then
        let mut entries := []
        for entry in ← real.readDir do
          if let some t ← readTree { path := entry.path.toString, deep := true } then
            entries := insertBinding entry.fileName t entries
        return some (.directory entries)
      else return some (.directory [])
    else
      let content ← IO.FS.readBinFile real
      return some (.file content.toList)
  catch _ => return none

/-- The disk with what can be seen at some paths. -/
def look (d : Disk) (sights : List Sight) : IO Disk := do
  let mut d := d
  for sight in sights do
    let path := d.absolute sight.path
    if sight.deep || !d.contains path then
      if let some t ← readTree { sight with path } then
        d := { d with root := d.root.put t (Path.names path) }
  return d

/-- Everything that standard input holds. -/
partial def readInput (stream : IO.FS.Stream) (content : ByteArray) : IO ByteArray := do
  let more ← stream.read 65536
  if more.isEmpty then return content else readInput stream (content ++ more)

/-- Writes the bytes of a text. -/
def writeText (stream : IO.FS.Stream) (text : String) : IO Unit :=
  stream.write ⟨(Text.toBytes text).toArray⟩

/-- Makes a change to the files. -/
def perform (change : Change) : IO Unit := do
  match change with
  | .makeDirectory _ => IO.FS.createDirAll change.path
  | .writeFile _ content => IO.FS.writeBinFile change.path ⟨content.toArray⟩
  | .remove _ =>
    let real ← IO.FS.realPath change.path
    if ← real.isDir then IO.FS.removeDirAll real else IO.FS.removeFile real

/-- Repositories cannot be reached from here. -/
def noCloner : Suite.Cloner :=
  fun _ => .error "repository not reachable"

/-- What the program finds when it starts. -/
def surroundings (arguments : List String) : IO Surroundings := do
  let directory := (← IO.currentDir).toString
  let time ← Std.Time.Timestamp.now
  let nanoseconds := time.toNanosecondsSinceUnixEpoch.val.toNat
  let stamp := Timestamp.ofSeconds (nanoseconds / 1000000000) (nanoseconds % 1000000000)
  let seed := (← IO.getRandomBytes 16).toList.foldl (fun n b => 256 * n + b.toNat) 0
  let input ← if arguments.contains "-" then readInput (← IO.getStdin) .empty else pure .empty
  let home := (← IO.getEnv "HOME").getD ""
  let empty : Disk := { root := .directory [], directory, home }
  let disk ← look empty (firstSights empty arguments)
  let env : Surroundings :=
    { disk
      input := input.toList
      cacheHome := (← IO.getEnv "WHILEPLUS_HOME").getD ""
      now := stamp.lockText
      logTime := stamp.logText
      runId := fun n => randomIdentifier (seed + n)
      cloner := noCloner }
  return { env with disk := ← look disk (laterSights env arguments) }

end WhilePlus

/-- Carries out the command line that the program was started with: it reads the
    files that the command may look at, writes what the command wrote, and does
    to the files what the command did to their tree. -/
def main (arguments : List String) : IO UInt32 := do
  let arguments := arguments.map fun text => WhilePlus.Text.ofChars text.toList
  let env ← WhilePlus.surroundings arguments
  let response := WhilePlus.commandLine env arguments
  for piece in response.pieces do
    match piece with
    | .output text => WhilePlus.writeText (← IO.getStdout) text
    | .error text => WhilePlus.writeText (← IO.getStderr) text
  if let .crashed text := response.code then
    WhilePlus.writeText (← IO.getStderr) ("whilep: " ++ text ++ "\n")
  for change in response.disk.root.changes [] (some env.disk.root) do
    WhilePlus.perform change
  return response.code.toNat.toUInt32
