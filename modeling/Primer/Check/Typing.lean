import Primer.Check.Progress
import Primer.Check.Scope
import Primer.Diagnostic.Basic
import Primer.Tree.Basic

/-!
Types of stored values.

The pass goes through the statements in order, notes every declaration and compares what is
stored with the declared type of its target. Comparisons give `bool`; any other operator gives
`float` if one side is `float`, and the type of its left side if not. A value of unknown type
fits everywhere. Conditions and returned values are not looked at.

In strict mode the two sides of every operator must also agree, unless one of them is unknown or
`float`.
-/

namespace Primer

/-- Why a program is not well typed. -/
inductive TypeFault where
  | mismatch (expected actual target : String) (location : Option Span)
  | undeclared (name : String) (location : Option Span)
deriving DecidableEq, Repr

def TypeFault.diagnostic : TypeFault → Diagnostic
  | .mismatch expected actual target loc => .typeMismatch expected actual target loc
  | .undeclared name loc => .undeclaredVariable name loc

/-- The type of what has none. -/
def unknownType : String := "unknown"

def Literal.type : Literal → String
  | .int _ => "int"
  | .float _ => "float"
  | .text _ => "string"
  | .bool _ => "bool"

/-- The operators that compare. -/
def comparisonOperators : List String := [">", "<", ">=", "<=", "==", "!="]

namespace Typing

/-- The type of a name: unknown if it is not declared, or declared with an empty type. -/
def nameType (table : SymbolTable) (x : String) : String :=
  match table.lookup x with
  | some t => if t.isEmpty then unknownType else t
  | none => unknownType

/-- Whether strict mode refuses the types of two operands. -/
def clash (left right : String) : Bool :=
  left != unknownType && right != unknownType && left != "float" && right != "float" &&
    left != right

/-- The type of an operation. -/
def operationType (operator left right : String) : String :=
  if comparisonOperators.contains operator then "bool"
  else if left = "float" ∨ right = "float" then "float"
  else left

/-- The type of an expression. Only strict mode can fail. -/
def infer (strict : Bool) (table : SymbolTable) : Tree → Except TypeFault String
  | .literal v _ => .ok v.type
  | .name x _ => .ok (nameType table x)
  | .binary op l r loc => do
    let left ← infer strict table l
    let right ← infer strict table r
    if strict && clash left right then .error (.mismatch left right "" loc)
    else return operationType op left right
  | _ => .ok unknownType

/-- The type of an expression that may be missing. -/
def inferOptional (strict : Bool) (table : SymbolTable) : Option Tree → Except TypeFault String
  | some e => infer strict table e
  | none => .ok unknownType

/-- The fault of a name that is not declared. -/
def undeclared? (table : SymbolTable) : Tree → Option TypeFault
  | .name x loc => if (table.lookup x).isNone then some (.undeclared x loc) else none
  | _ => none

/-- The first name inside a value that is not declared. -/
def firstUndeclared? (table : SymbolTable) : Option Tree → Option TypeFault
  | some e => e.walk.findSome? (undeclared? table)
  | none => none

/-- Compares the type of a value with the one it is stored as. -/
def store (table : SymbolTable) (declared inferred target : String) (loc : Option Span) :
    Progress SymbolTable TypeFault :=
  if inferred ≠ unknownType ∧ inferred ≠ declared then
    .stopped (.mismatch declared inferred target loc) table
  else .finished table

/-- A declaration is noted after its value is typed and before the value is checked, so a
variable may stand in its own first value. -/
def declare (strict : Bool) (table : SymbolTable) (type name : String) (value : Option Tree)
    (loc : Option Span) : Progress SymbolTable TypeFault :=
  match inferOptional strict table value with
  | .error fault => .stopped fault table
  | .ok inferred =>
    let table := table.define name type
    match firstUndeclared? table value with
    | some fault => .stopped fault table
    | none => store table type inferred name loc

def assign (strict : Bool) (table : SymbolTable) (name : String) (value : Tree)
    (loc : Option Span) : Progress SymbolTable TypeFault :=
  match table.lookup name with
  | none => .stopped (.undeclared name loc) table
  | some declared =>
    match firstUndeclared? table (some value) with
    | some fault => .stopped fault table
    | none =>
      match infer strict table value with
      | .error fault => .stopped fault table
      | .ok inferred => store table declared inferred name loc

mutual

/-- The table after a tree. -/
def check (strict : Bool) (table : SymbolTable) : Tree → Progress SymbolTable TypeFault
  | .declare t x v loc => declare strict table t x v loc
  | .assign x v loc => assign strict table x v loc
  | .branch _ b none _ => check strict table b
  | .branch _ b (some e) _ => (check strict table b).andThen fun table => check strict table e
  | .whileLoop _ b _ => check strict table b
  | .forLoop b _ => check strict table b
  | .block ns _ => checkAll strict table ns
  | .program ns _ => checkAll strict table ns
  | _ => .finished table

def checkAll (strict : Bool) (table : SymbolTable) : List Tree → Progress SymbolTable TypeFault
  | [] => .finished table
  | n :: ns => (check strict table n).andThen fun table => checkAll strict table ns

end

end Typing

end Primer
