import WhilePlus.Document.Fault

namespace WhilePlus

/-- Why something outside the language failed. -/
inductive Cause where
  /-- A document is no program. -/
  | decode (e : DecodeError)
  /-- A project file breaks rules. -/
  | validation (issues : List String)
  /-- A well-formed file does not fit what is expected of it. -/
  | mismatch (problems : List String)
  /-- A file or directory does not exist. -/
  | notFound (text : String)
  /-- The reader of a document came to a place where it cannot go on. -/
  | crash (text : String)
  /-- Anything else. -/
  | other (text : String)
  deriving DecidableEq, Repr

/-- What is said of the issues of a project file. -/
def validationMessage (issues : List String) : String :=
  match issues with
  | [] => "manifest: invalid configuration"
  | _ => "manifest validation failed:" ++ String.join (issues.map ("\n- " ++ ·))

/-- What is said of a cause. -/
def Cause.message : Cause → String
  | decode e => e.message
  | validation issues => validationMessage issues
  | mismatch problems => "yaml: unmarshal errors:\n" ++ "\n".intercalate (problems.map ("  " ++ ·))
  | notFound text => text
  | crash text => text
  | other text => text

/-- An error: the cause, and the text that the layers around the language put in
    front of it. -/
structure Error where
  context : String
  cause : Cause
  deriving DecidableEq, Repr

namespace Error

/-- What is said of an error. -/
def message (e : Error) : String :=
  e.context ++ e.cause.message

/-- An error with a text of its own. -/
def ofText (text : String) : Error :=
  ⟨"", .other text⟩

/-- The error of a reader that cannot go on. -/
def ofCrash (text : String) : Error :=
  ⟨"", .crash text⟩

/-- The error with more text in front; nothing is put in front of a crash. -/
def under (context : String) (e : Error) : Error :=
  match e.cause with
  | .crash _ => e
  | _ => { e with context := context ++ e.context }

/-- Text in front of an error does not change its cause. This holds for a crash
    as well. -/
theorem cause_under {e : Error} {context : String} : (e.under context).cause = e.cause := by
  rw [under]
  split <;> rfl

/-- What is said of an error with more text in front, unless it is a crash. -/
theorem message_under {e : Error} (h : ∀ text, e.cause ≠ .crash text) (context : String) :
    (e.under context).message = context ++ e.message := by
  rw [under]
  split
  · next text hcrash => exact absurd hcrash (h text)
  · exact String.append_assoc

/-- The error of a literal: a document of the wrong shape is a decode error of
    its own. -/
def ofLiteral (fault : Fault) : Error :=
  if fault.isStructural then ⟨"", .decode ⟨[], fault⟩⟩ else .ofText fault.message

end Error

/-- The result with more text in front of its error. -/
def within {α : Type} (context : String) (result : Except Error α) : Except Error α :=
  result.mapError (·.under context)

/-- Text is put in front of errors only, so a computation succeeds with it
    exactly as it does without it. -/
theorem within_eq_ok_iff {α : Type} {context : String} {result : Except Error α} {a : α} :
    within context result = .ok a ↔ result = .ok a := by
  cases result with
  | error e =>
    constructor
    · intro h
      cases h
    · intro h
      cases h
  | ok b =>
    constructor
    · intro h
      cases h
      rfl
    · intro h
      cases h
      rfl

end WhilePlus
