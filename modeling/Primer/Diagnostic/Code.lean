import Primer.Text.Quoted

/-!
Codes of diagnostics.

A code is a number with the kind of fault it stands for and the phase that finds it. Codes are
equal if their numbers are.
-/

namespace Primer

/-- What went wrong. -/
inductive FaultKind where
  | typeMismatch
  | undeclaredVariable
  | uninitializedUse
  | divisionByLiteralZero
  | divisionByTrackedZero
  | parserError
  | internal
deriving DecidableEq, Repr

namespace FaultKind

/-- The name of a kind in reports. -/
def text : FaultKind → String
  | .typeMismatch => "TypeMismatch"
  | .undeclaredVariable => "UndeclaredVariable"
  | .uninitializedUse => "UninitializedUse"
  | .divisionByLiteralZero => "DivisionByLiteralZero"
  | .divisionByTrackedZero => "DivisionByTrackedZero"
  | .parserError => "ParserError"
  | .internal => "Internal"

/-- The name of a kind in capitals. -/
def capitals : FaultKind → String
  | .typeMismatch => "TYPE_MISMATCH"
  | .undeclaredVariable => "UNDECLARED_VARIABLE"
  | .uninitializedUse => "UNINITIALIZED_USE"
  | .divisionByLiteralZero => "DIVISION_BY_LITERAL_ZERO"
  | .divisionByTrackedZero => "DIVISION_BY_TRACKED_ZERO"
  | .parserError => "PARSER_ERROR"
  | .internal => "INTERNAL"

def all : List FaultKind :=
  [.typeMismatch, .undeclaredVariable, .uninitializedUse, .divisionByLiteralZero,
    .divisionByTrackedZero, .parserError, .internal]

end FaultKind

/-- The phase of an analysis that finds a fault. -/
inductive Phase where
  | parsing
  | typing
  | dataflow
  | symbolic
  | internal
deriving DecidableEq, Repr

/-- The name of a phase in reports. -/
def Phase.text : Phase → String
  | .parsing => "syntax"
  | .typing => "type"
  | .dataflow => "dataflow"
  | .symbolic => "symbolic"
  | .internal => "internal"

structure Code where
  number : Int
  kind : FaultKind
  phase : Phase
deriving Repr

namespace Code

/-- A number in at least four characters, filled with zeros after the sign. -/
def padded (n : Int) : String :=
  let digits := Nat.toDigits 10 n.natAbs
  if n < 0 then String.ofList ('-' :: (List.replicate (3 - digits.length) '0' ++ digits))
  else String.ofList (List.replicate (4 - digits.length) '0' ++ digits)

def text (c : Code) : String := "CS-" ++ padded c.number

/-- A code with its kind. -/
def spelled (c : Code) : String :=
  "ErrorCode(" ++ Text.quoted c.text ++ ", " ++ c.kind.capitals ++ ")"

instance : BEq Code where
  beq a b := a.number == b.number

def parseFailure : Code := ⟨1000, .parserError, .parsing⟩
def malformedTree : Code := ⟨1001, .parserError, .parsing⟩
def nestingTooDeep : Code := ⟨1002, .parserError, .parsing⟩
def typeMismatch : Code := ⟨2000, .typeMismatch, .typing⟩
def undeclaredVariable : Code := ⟨2001, .undeclaredVariable, .typing⟩
def uninitializedUse : Code := ⟨3000, .uninitializedUse, .dataflow⟩
def divisionByLiteralZero : Code := ⟨4000, .divisionByLiteralZero, .symbolic⟩
def divisionByTrackedZero : Code := ⟨4001, .divisionByTrackedZero, .symbolic⟩
def internalError : Code := ⟨9000, .internal, .internal⟩
def scopeUnderflow : Code := ⟨9001, .internal, .internal⟩

end Code

end Primer
