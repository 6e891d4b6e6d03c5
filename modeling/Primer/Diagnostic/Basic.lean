import Primer.Diagnostic.Code
import Primer.Source.Json

/-!
Diagnostics: what is reported to the user.

A diagnostic has a category, a code, a message and, if it is known, a place. Notes and a hint may
follow. Categories form a tree, from any fault down to the faults of one kind.
-/

namespace Primer

/-- The family a diagnostic belongs to. -/
inductive Category where
  | any
  | parser
  | semantic
  | typeMismatch
  | undeclaredVariable
  | dataFlow
  | uninitializedUse
  | mathSafety
  | divisionByLiteralZero
  | divisionByTrackedZero
  | internal
  | scopeUnderflow
deriving DecidableEq, Repr

namespace Category

/-- The wider categories, nearest first. -/
def ancestors : Category → List Category
  | .any => []
  | .parser | .semantic | .dataFlow | .mathSafety | .internal => [.any]
  | .typeMismatch | .undeclaredVariable => [.semantic, .any]
  | .uninitializedUse => [.dataFlow, .any]
  | .divisionByLiteralZero | .divisionByTrackedZero => [.mathSafety, .any]
  | .scopeUnderflow => [.internal, .any]

/-- The code of a diagnostic that is given none. -/
def defaultCode : Category → Code
  | .any | .internal => .internalError
  | .parser => .parseFailure
  | .semantic | .typeMismatch => .typeMismatch
  | .undeclaredVariable => .undeclaredVariable
  | .dataFlow | .uninitializedUse => .uninitializedUse
  | .mathSafety | .divisionByLiteralZero => .divisionByLiteralZero
  | .divisionByTrackedZero => .divisionByTrackedZero
  | .scopeUnderflow => .scopeUnderflow

end Category

/-- More about a diagnostic. -/
structure Note where
  message : String
  label : String := "note"
deriving DecidableEq, Repr

def Note.text (n : Note) : String :=
  if n.label.isEmpty then n.message else n.label ++ ": " ++ n.message

structure Diagnostic where
  category : Category
  code : Code
  message : String
  location : Option Span := none
  notes : List Note := []
  hint : String := ""
deriving Repr

namespace Diagnostic

/-- A diagnostic with the default code of its category. -/
def ofCategory (category : Category) (message : String) (location : Option Span)
    (hint : String) : Diagnostic :=
  { category, code := category.defaultCode, message, location, hint }

def addNote (d : Diagnostic) (note : Note) : Diagnostic := { d with notes := d.notes ++ [note] }

def line? (d : Diagnostic) : Option Int := d.location.map Span.line

/-- Where a diagnostic belongs, as `file:line:column` with the parts that are known. -/
def origin (d : Diagnostic) (file : String) : List String :=
  (if file.isEmpty then [] else [file]) ++
    match d.location with
    | some s => [toString s.start.line, toString s.start.column]
    | none => []

/-- The diagnostic in the form of a compiler: place, message and code on the first line, then
notes and hint. An empty file name is left out. -/
def render (d : Diagnostic) (file : String) : String :=
  let origin := ":".intercalate (d.origin file)
  let main := "error: " ++ d.message ++ " [" ++ d.code.text ++ "]"
  let first := if origin.isEmpty then main else origin ++ ": " ++ main
  let notes := d.notes.map fun n => "    " ++ n.text
  let hint := if d.hint.isEmpty then [] else ["    hint: " ++ d.hint]
  "\n".intercalate (first :: notes ++ hint)

def toJson (d : Diagnostic) : Json :=
  .obj [
    ("code", .str d.code.text),
    ("kind", .str d.code.kind.text),
    ("phase", .str d.code.phase.text),
    ("message", .str d.message),
    ("location", placeJson d.location),
    ("notes", .arr (d.notes.map fun n =>
      .obj [("label", .str n.label), ("message", .str n.message)])),
    ("hint", .str d.hint)]

/-! ### The diagnostics of the passes -/

/-- A value of another type than the one it is stored as. Without a variable, `target` is empty. -/
def typeMismatch (expected actual target : String) (location : Option Span) : Diagnostic where
  category := .typeMismatch
  code := .typeMismatch
  message :=
    "Cannot assign value of type '" ++ actual ++ "' to " ++
      (if target.isEmpty then "this operation" else "variable '" ++ target ++ "'") ++
      " (expects '" ++ expected ++ "')."
  location := location
  notes := [{ message := "Expected type: " ++ expected }, { message := "Actual type: " ++ actual }]

def undeclaredVariable (name : String) (location : Option Span) : Diagnostic where
  category := .undeclaredVariable
  code := .undeclaredVariable
  message := "Variable '" ++ name ++ "' is not declared."
  location := location
  hint := "Declare it first, e.g. 'int " ++ name ++ " = 0;'"

def uninitializedUse (name : String) (location : Option Span) : Diagnostic where
  category := .uninitializedUse
  code := .uninitializedUse
  message := "Variable '" ++ name ++ "' is used here, but it has not been initialized yet."
  location := location

/-- The word for an operation that fails on a zero. -/
def divisionWord (operator : String) : String := if operator = "%" then "Modulo" else "Division"

def divisionByLiteralZero (operator : String) (location : Option Span) : Diagnostic where
  category := .divisionByLiteralZero
  code := .divisionByLiteralZero
  message := divisionWord operator ++ " by Literal Zero."
  location := location

def divisionByTrackedZero (name operator : String) (location : Option Span) : Diagnostic where
  category := .divisionByTrackedZero
  code := .divisionByTrackedZero
  message := divisionWord operator ++ " by Zero: variable '" ++ name ++ "' is known to be 0 here."
  location := location

def scopeUnderflow : Diagnostic where
  category := .scopeUnderflow
  code := .scopeUnderflow
  message := "Cannot exit the outermost scope."

/-- A text or a tree that is refused. -/
def parser (code : Code) (message : String) (location : Option Span) : Diagnostic where
  category := .parser
  code := code
  message := message
  location := location

/-- A tree more than `limit` levels deep. -/
def nesting (limit : Int) (location : Option Span) : Diagnostic :=
  parser .nestingTooDeep
    ("Nesting exceeds " ++ toString limit ++
      " levels here; split the expression or statement.") location

end Diagnostic

end Primer
