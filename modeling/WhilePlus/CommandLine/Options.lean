import WhilePlus.Log
import WhilePlus.Number.Digits
import WhilePlus.Text.Character

namespace WhilePlus

/-- What the options ask for. -/
structure Options where
  level : Level := .warn
  trace : Bool := false
  /-- The step limit that was asked for; zero lifts the limit. -/
  maxSteps : Option Nat := none
  deriving DecidableEq, Repr

/-- What can be wrong with the options. -/
inductive OptionError where
  | missingValue (name : String)
  | unknownLevel (value : String)
  | badStepCount (value : String)
  deriving DecidableEq, Repr

/-- What is said of wrong options. -/
def OptionError.message : OptionError → String
  | missingValue name => name ++ " expects a value"
  | unknownLevel value =>
    "unknown --log-level value '" ++ value ++ "' (expected debug, info, warn or error)"
  | badStepCount value => "--max-steps expects a non-negative integer, got '" ++ value ++ "'"

namespace Options

/-- Reads the name of a level, in any letter case. -/
def parseLevel (value : String) : Except OptionError Level :=
  match Text.lower (Text.trim value) with
  | "debug" => .ok .debug
  | "info" => .ok .info
  | "warn" => .ok .warn
  | "warning" => .ok .warn
  | "error" => .ok .error
  | "" => .error (.missingValue "--log-level")
  | _ => .error (.unknownLevel value)

/-- Reads a number of steps. -/
def parseSteps (value : String) : Except OptionError Nat :=
  match Number.parseInt (Text.trim value) with
  | .ok n => if n < 0 then .error (.badStepCount value) else .ok n.toInt.toNat
  | .error _ => .error (.badStepCount value)

/-- An option that takes a value. -/
inductive Key where
  | level
  | maxSteps
  deriving DecidableEq, Repr

/-- How an argument is read on its own. -/
inductive Argument where
  | endOfOptions
  | trace
  | setting (key : Key) (value : Option String)
  | plain
  deriving DecidableEq, Repr

/-- The part of an argument before the first `=`, and the part after it. -/
def splitValue (argument : String) : String × Option String :=
  let cs := argument.toList
  let name := String.ofList (cs.takeWhile (· != '='))
  match cs.dropWhile (· != '=') with
  | _ :: value => (name, some (String.ofList value))
  | [] => (name, none)

/-- Reads an argument on its own. -/
def classify (argument : String) : Argument :=
  if argument = "--" then .endOfOptions
  else
    match splitValue argument with
    | ("--log-level", value) => .setting .level value
    | ("--max-steps", value) => .setting .maxSteps value
    | ("--trace", _) => .trace
    | _ => .plain

/-- The name of an option that takes a value. -/
def Key.name : Key → String
  | .level => "--log-level"
  | .maxSteps => "--max-steps"

/-- The options with one of them set anew. -/
def set (options : Options) (key : Key) (value : String) : Except OptionError Options :=
  match key with
  | .level => do
    let level ← parseLevel value
    .ok { options with level }
  | .maxSteps => do
    let n ← parseSteps value
    .ok { options with maxSteps := some n }

/-- Reads options from arguments, starting from some already known; the second
    part holds the arguments that are none. Options may stand anywhere, up to a
    first `--`. -/
def parseFrom (options : Options) : List String → Except OptionError (Options × List String)
  | [] => .ok (options, [])
  | argument :: rest =>
    match classify argument with
    | .endOfOptions => .ok (options, rest)
    | .trace => parseFrom { options with trace := true } rest
    | .setting key (some value) =>
      match options.set key value with
      | .ok options => parseFrom options rest
      | .error e => .error e
    | .setting key none =>
      match rest with
      | [] => .error (.missingValue key.name)
      | value :: rest =>
        match options.set key value with
        | .ok options => parseFrom options rest
        | .error e => .error e
    | .plain =>
      match parseFrom options rest with
      | .ok (options, plain) => .ok (options, argument :: plain)
      | .error e => .error e

/-- Reads the options among the arguments. -/
def parse (arguments : List String) : Except OptionError (Options × List String) :=
  parseFrom {} arguments

/-- The step limit of a run: the one asked for, or else the one of the project,
    if there is one. -/
def limit (options : Options) (project : Option Int) : Int :=
  match options.maxSteps with
  | some n => n
  | none => project.getD 0

end Options

end WhilePlus
