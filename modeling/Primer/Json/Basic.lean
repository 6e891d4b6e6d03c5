import Primer.Number.Basic
import Primer.Table

/-!
JSON values.

Whole numbers and floating-point numbers are told apart, and the members of an object keep the
order in which their keys first came.
-/

namespace Primer

inductive Json where
  | null
  | bool (value : Bool)
  | int (value : Int)
  | float (value : Binary64)
  | str (value : String)
  | arr (items : List Json)
  | obj (members : List (String × Json))
deriving Inhabited, Repr

namespace Json

def ofNumber : Number → Json
  | .int n => .int n
  | .float x => .float x

/-- The optional value, with `null` for none. -/
def ofOption : Option Json → Json
  | some j => j
  | none => .null

/-- The member of a key. -/
def member? (key : String) (members : Table Json) : Option Json := members.get? key

/-- Nothing, zero, and what is empty count as false. -/
def truthy : Json → Bool
  | .null => false
  | .bool b => b
  | .int n => n != 0
  | .float x => !x.isZero
  | .str s => !s.isEmpty
  | .arr xs => !xs.isEmpty
  | .obj ms => !ms.isEmpty

end Json

end Primer
