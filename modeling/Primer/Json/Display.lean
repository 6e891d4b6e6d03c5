import Primer.Json.Basic
import Primer.Number.Reading
import Primer.Text.Quoted

/-!
How JSON values are named in messages.

`spelled` writes a value with its texts in quotes, `plain` writes a text as it is. Whole numbers
with too many digits are not written at all, and `overlong` says which values hold one.
-/

namespace Primer.Json

/-- The word for the kind of a value. -/
def kindName : Json → String
  | .null => "NoneType"
  | .bool _ => "bool"
  | .int _ => "int"
  | .float _ => "float"
  | .str _ => "str"
  | .arr _ => "list"
  | .obj _ => "dict"

mutual

/-- A value with its texts in quotes. -/
def spelled : Json → String
  | .null => "None"
  | .bool b => if b then "True" else "False"
  | .int n => toString n
  | .float x => x.text
  | .str s => Text.quoted s
  | .arr xs => "[" ++ ", ".intercalate (spelledItems xs) ++ "]"
  | .obj ms => "\x7b" ++ ", ".intercalate (spelledMembers ms) ++ "\x7d"

def spelledItems : List Json → List String
  | [] => []
  | x :: xs => spelled x :: spelledItems xs

def spelledMembers : List (String × Json) → List String
  | [] => []
  | (k, v) :: ms => (Text.quoted k ++ ": " ++ spelled v) :: spelledMembers ms

end

/-- A text as it is, and any other value as `spelled`. -/
def plain : Json → String
  | .str s => s
  | j => spelled j

mutual

/-- Whether a value holds a whole number with more digits than are written. -/
def overlong : Json → Bool
  | .int n => Nat.pow 10 Reading.maxDigits ≤ n.natAbs
  | .arr xs => overlongItems xs
  | .obj ms => overlongMembers ms
  | _ => false

def overlongItems : List Json → Bool
  | [] => false
  | x :: xs => overlong x || overlongItems xs

def overlongMembers : List (String × Json) → Bool
  | [] => false
  | (_, v) :: ms => overlong v || overlongMembers ms

end

@[simp] theorem plain_str (s : String) : plain (.str s) = s := rfl

end Primer.Json
