import Primer.Json.Basic
import Primer.Tree.Basic

/-!
Two listings of a program: its declarations and its operations.

Both go through the tree in source order, an outer operation before those it contains. A node
without a place is listed on line zero.
-/

namespace Primer

/-- A declaration of a variable. -/
structure SymbolEntry where
  type : String
  name : String
  line : Int
deriving DecidableEq, Repr

def SymbolEntry.toJson (s : SymbolEntry) : Json :=
  .obj [("type", .str s.type), ("name", .str s.name), ("line", .int s.line)]

/-- A binary operation with its operands in short. -/
structure Operation where
  operator : String
  left : String
  right : String
  line : Int
deriving DecidableEq, Repr

def Operation.toJson (o : Operation) : Json :=
  .obj [("op", .str o.operator), ("left", .str o.left), ("right", .str o.right),
    ("line", .int o.line)]

namespace Node

/-- The line a node is listed on. -/
def listedLine (n : Tree) : Int := n.line?.getD 0

def symbolEntry? : Tree → Option SymbolEntry
  | .declare t x v loc => some ⟨t, x, listedLine (.declare t x v loc)⟩
  | _ => none

/-- The declarations of a program in source order. -/
def symbols (n : Tree) : List SymbolEntry := n.walk.filterMap symbolEntry?

/-- An operand in short: names and numbers are written out. -/
def shortOperand : Tree → String
  | .name x _ => x
  | .literal (.int n) _ => toString n
  | .literal (.float x) _ => x.text
  | .binary .. => "(Expr)"
  | _ => "?"

def operation? : Tree → Option Operation
  | .binary op l r loc =>
    some ⟨op, shortOperand l, shortOperand r, listedLine (.binary op l r loc)⟩
  | _ => none

/-- The operations of a program in source order. -/
def operations (n : Tree) : List Operation := n.walk.filterMap operation?

end Node

end Primer
