import Primer.Number.Shortest

/-!
Numbers of a program: whole numbers of any size and floating-point numbers, compared by exact
value.
-/

namespace Primer

inductive Number where
  | int (value : Int)
  | float (value : Binary64)
deriving DecidableEq, Repr

namespace Number

/-- Equality of values across the two kinds. -/
def same : Number → Number → Bool
  | .int m, .int n => m == n
  | .int m, .float y => y.sameInt m
  | .float x, .int n => x.sameInt n
  | .float x, .float y => x.same y

def isZero : Number → Bool
  | .int n => n == 0
  | .float x => x.isZero

def text : Number → String
  | .int n => toString n
  | .float x => x.text

end Number

end Primer
