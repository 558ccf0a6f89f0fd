import WhilePlus.Language.Tree
import WhilePlus.Log
import WhilePlus.Value

namespace WhilePlus

/-- Something that a running program does. -/
inductive Event where
  | started (span : Span)
  | assigned (span : Span) (name : String) (value : Cell)
  | printed (span : Span) (value : Cell) (text : String)
  | raised (span : Span) (value : Cell)
  | caught (span : Span) (name : String) (value : Cell)
  | ended (span : Span) (value : Cell)
  deriving DecidableEq, Repr

/-- An event as a line of a trace names it; what an event does not have is
    empty. -/
structure TraceLine where
  event : String
  span : Span
  name : String
  value : Cell
  text : String
  deriving DecidableEq, Repr

/-- The line of a trace, without its end. -/
def TraceLine.render (t : TraceLine) : String :=
  "trace " ++ t.event ++
    (if t.span.isZero then "" else " at " ++ t.span.display) ++
    (if t.name.isEmpty then "" else " " ++ t.name) ++
    (match t.value with
    | some v => " = " ++ v.display
    | none => "") ++
    (if t.text.isEmpty then "" else " " ++ Text.quote t.text)

/-- The line of an event. -/
def Event.toLine : Event → TraceLine
  | .started span => ⟨"run_start", span, "", none, ""⟩
  | .assigned span name value => ⟨"assign", span, name, value, ""⟩
  | .printed span value text => ⟨"print", span, "", value, text⟩
  | .raised span value => ⟨"raise", span, "", value, ""⟩
  | .caught span name value => ⟨"catch", span, name, value, ""⟩
  | .ended span value => ⟨"run_end", span, "", value, ""⟩

/-- An entry of a journal. -/
inductive Entry where
  | event (e : Event)
  | record (r : Record)
  deriving DecidableEq, Repr

/-- The event that an entry is. -/
def Entry.event? : Entry → Option Event
  | .event e => some e
  | .record _ => none

/-- The record that an entry is. -/
def Entry.record? : Entry → Option Record
  | .event _ => none
  | .record r => some r

/-- The record of a caught value. -/
def caughtRecord (runId name : String) (value : Cell) : Record :=
  ⟨.debug, "exception caught", [("run_id", runId), ("var", name), ("value", value.display)]⟩

/-- The record of a value that nothing caught. -/
def uncaughtRecord (runId : String) (value : Cell) : Record :=
  ⟨.debug, "uncaught exception", [("run_id", runId), ("value", value.display)]⟩

end WhilePlus
