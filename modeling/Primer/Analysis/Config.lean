/-!
What an analysis does.
-/

namespace Primer

/-- The passes to run and how they run. -/
structure Config where
  typeCheck : Bool := true
  dataFlow : Bool := true
  mathSafety : Bool := true
  buildGraph : Bool := true
  score : Bool := true
  branchScopedConstants : Bool := false
  strictOperandTypes : Bool := false
deriving DecidableEq, Repr

/-- What is odd about a choice of passes. -/
def Config.warnings (c : Config) : List String :=
  (if !(c.typeCheck || c.dataFlow || c.mathSafety) then
    ["all checking passes are disabled; only views are produced"] else []) ++
  (if c.branchScopedConstants && !c.mathSafety then
    ["branch_scoped_constants has no effect without math_safety"] else []) ++
  (if c.strictOperandTypes && !c.typeCheck then
    ["strict_operand_types has no effect without type_check"] else [])

/-- The steps of an analysis. -/
inductive Pass where
  | parse
  | score
  | graph
  | types
  | dataflow
  | math
deriving DecidableEq, Repr

def Pass.text : Pass → String
  | .parse => "parse"
  | .score => "score"
  | .graph => "cfg"
  | .types => "types"
  | .dataflow => "dataflow"
  | .math => "math"

end Primer
