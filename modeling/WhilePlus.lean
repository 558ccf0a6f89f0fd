import WhilePlus.CommandLine.Command
import WhilePlus.CommandLine.Fetch
import WhilePlus.CommandLine.Options
import WhilePlus.CommandLine.Run
import WhilePlus.CommandLine.Session
import WhilePlus.CommandLine.Test
import WhilePlus.Disk.Basic
import WhilePlus.Disk.Change
import WhilePlus.Disk.Walk
import WhilePlus.Document.Basic
import WhilePlus.Document.Decode
import WhilePlus.Document.Encode
import WhilePlus.Document.Fault
import WhilePlus.Document.Timestamp
import WhilePlus.Error
import WhilePlus.Fixture.Basic
import WhilePlus.Fixture.File
import WhilePlus.Json.Reader
import WhilePlus.Json.Writer
import WhilePlus.Language.Operator
import WhilePlus.Language.Tree
import WhilePlus.Lockfile.Basic
import WhilePlus.Lockfile.File
import WhilePlus.Log
import WhilePlus.Main
import WhilePlus.Manifest.Basic
import WhilePlus.Manifest.File
import WhilePlus.Number.Binary64
import WhilePlus.Number.Decimal
import WhilePlus.Number.Digits
import WhilePlus.Path
import WhilePlus.Program
import WhilePlus.Proofs.CommandLine.Fetch
import WhilePlus.Proofs.CommandLine.Options
import WhilePlus.Proofs.CommandLine.Run
import WhilePlus.Proofs.CommandLine.Save
import WhilePlus.Proofs.CommandLine.Test
import WhilePlus.Proofs.Disk.Below
import WhilePlus.Proofs.Disk.Find
import WhilePlus.Proofs.Disk.Make
import WhilePlus.Proofs.Disk.Rooted
import WhilePlus.Proofs.Disk.Tree
import WhilePlus.Proofs.Disk.Walk
import WhilePlus.Proofs.Document.Acceptance
import WhilePlus.Proofs.Document.Faults
import WhilePlus.Proofs.Document.Grammar
import WhilePlus.Proofs.Document.PartByPart
import WhilePlus.Proofs.Document.PlaceText
import WhilePlus.Proofs.Document.Places
import WhilePlus.Proofs.Document.RoundTrip
import WhilePlus.Proofs.Document.Shape
import WhilePlus.Proofs.Document.Spans
import WhilePlus.Proofs.Document.Spelling
import WhilePlus.Proofs.Document.WellFormed
import WhilePlus.Proofs.Except
import WhilePlus.Proofs.Fixture.Collect
import WhilePlus.Proofs.Fixture.Failures
import WhilePlus.Proofs.Fixture.Verdict
import WhilePlus.Proofs.Language.Spelling
import WhilePlus.Proofs.Language.WellFormed
import WhilePlus.Proofs.Lockfile.Entries
import WhilePlus.Proofs.Lockfile.Order
import WhilePlus.Proofs.Lockfile.RoundTrip
import WhilePlus.Proofs.Lockfile.Signature
import WhilePlus.Proofs.Manifest.Declarations
import WhilePlus.Proofs.Manifest.Fields
import WhilePlus.Proofs.Manifest.Load
import WhilePlus.Proofs.Manifest.Nearest
import WhilePlus.Proofs.Manifest.Reading
import WhilePlus.Proofs.Manifest.Validation
import WhilePlus.Proofs.Number.Digits
import WhilePlus.Proofs.Number.Numeral
import WhilePlus.Proofs.Path.Clean
import WhilePlus.Proofs.Program.Fields
import WhilePlus.Proofs.Program.Safety
import WhilePlus.Proofs.Run.Cancel
import WhilePlus.Proofs.Run.Derivation
import WhilePlus.Proofs.Run.Effect
import WhilePlus.Proofs.Run.Limit
import WhilePlus.Proofs.Run.Lines
import WhilePlus.Proofs.Run.Names
import WhilePlus.Proofs.Run.Raise
import WhilePlus.Proofs.Run.Refusal
import WhilePlus.Proofs.Run.Replay
import WhilePlus.Proofs.Run.Report
import WhilePlus.Proofs.Run.Safety
import WhilePlus.Proofs.Run.Sequence
import WhilePlus.Proofs.Run.Stage
import WhilePlus.Proofs.Semantics.BigStep
import WhilePlus.Proofs.Semantics.Exact
import WhilePlus.Proofs.Semantics.Expression
import WhilePlus.Proofs.Semantics.PostOrder
import WhilePlus.Proofs.Store.Bindings
import WhilePlus.Proofs.Store.Documents
import WhilePlus.Proofs.Store.FiniteMap
import WhilePlus.Proofs.Store.Rebinding
import WhilePlus.Proofs.Suite.Checksum
import WhilePlus.Proofs.Suite.Commit
import WhilePlus.Proofs.Suite.Confinement
import WhilePlus.Proofs.Suite.Directory
import WhilePlus.Proofs.Suite.Entry
import WhilePlus.Proofs.Suite.Failure
import WhilePlus.Proofs.Suite.Pinning
import WhilePlus.Proofs.Suite.Segment
import WhilePlus.Proofs.Suite.Version
import WhilePlus.Proofs.Text.Ascii
import WhilePlus.Proofs.Text.Bytes
import WhilePlus.Proofs.Text.Lines
import WhilePlus.Proofs.Text.Trim
import WhilePlus.Proofs.Value.Display
import WhilePlus.Proofs.Yaml.Distinct
import WhilePlus.Proofs.Yaml.Mapping
import WhilePlus.Proofs.Yaml.Reading
import WhilePlus.Proofs.Yaml.Resolve
import WhilePlus.Run.Execute
import WhilePlus.Run.Expression
import WhilePlus.Run.Journal
import WhilePlus.Store
import WhilePlus.Suite.Basic
import WhilePlus.Suite.Fetch
import WhilePlus.Suite.Head
import WhilePlus.Suite.Sha256
import WhilePlus.Text.Base64
import WhilePlus.Text.Character
import WhilePlus.Text.Quoted
import WhilePlus.Value
import WhilePlus.Yaml.Block
import WhilePlus.Yaml.Charset
import WhilePlus.Yaml.Compose
import WhilePlus.Yaml.Generic
import WhilePlus.Yaml.Lexer
import WhilePlus.Yaml.Node
import WhilePlus.Yaml.Plain
import WhilePlus.Yaml.Quoted
import WhilePlus.Yaml.Reading
import WhilePlus.Yaml.Resolve
import WhilePlus.Yaml.Scalar
import WhilePlus.Yaml.Scan
import WhilePlus.Yaml.Source
import WhilePlus.Yaml.Tag
import WhilePlus.Yaml.Time
import WhilePlus.Yaml.Typed
import WhilePlus.Yaml.Writer
