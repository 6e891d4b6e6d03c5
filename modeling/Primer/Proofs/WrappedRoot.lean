import Mathlib.Tactic
import Primer.Command.Answer
import Primer.Proofs.Codec
import Primer.Proofs.FailFast
import Primer.Proofs.Passes

/-!
A tree that becomes the only statement of a program.

A command that reads a tree puts a root that is no program into one. No pass sees the difference:
each of them does with a row of one node what it does with the node. Only the wrapper is a level of
its own. A tree may have as many levels as the passes accept, so a tree that has all of them is fit
for the passes by itself and is too deep inside a program.
-/

namespace Primer

open Progress

/-! ### One node in a row -/

namespace Node

def wrapped {α : Type} (n : Node α) : Node α := .program [n] none

/-- The tree itself if it is a program, and the program around it if it is not. -/
def asProgram {α : Type} : Node α → Node α
  | .program ns loc => .program ns loc
  | n => n.wrapped

end Node

open Node

lemma Typing.check_wrapped (strict : Bool) (table : SymbolTable) (n : Tree) :
    check strict table n.wrapped = check strict table n := by
  simp [wrapped, check, checkAll, andThen_finished]

lemma KnownValues.check_wrapped (apart : Bool) (known : Known) (n : Tree) :
    check apart known n.wrapped = check apart known n := by
  simp [wrapped, check, checkAll, andThen_finished]

/-- What is set in a program is forgotten behind it, but its faults are those of its statement. -/
lemma Initialized.check_wrapped (names : Names) (n : Tree) :
    check names n.wrapped = (check names n).withState names := by
  simp [wrapped, check, checkAll, andThen_finished]

/-! ### Reports that find the same -/

namespace Report

/-- Two reports agree, but for the tree itself, its tokens and the log. -/
structure Agrees (r r' : Report) : Prop where
  config : r.config = r'.config
  error : r.error = r'.error
  passes : r.passes = r'.passes
  symbols : r.symbols = r'.symbols
  operations : r.operations = r'.operations
  score : r.score = r'.score
  graph : r.graph = r'.graph
  declaredTypes : r.declaredTypes = r'.declaredTypes
  knownValues : r.knownValues = r'.knownValues

namespace Agrees

variable {r r' : Report}

lemma fail (h : Agrees r r') (d : Diagnostic) : Agrees (r.fail d) (r'.fail d) :=
  { h with error := rfl }

lemma say (h : Agrees r r') (line line' : String) : Agrees (r.say line) (r'.say line') :=
  { h with }

lemma pass (h : Agrees r r') (p : Pass) : Agrees (r.pass p) (r'.pass p) :=
  { h with passes := congrArg (· ++ [p]) h.passes }

lemma andCheck (h : Agrees r r') {check check' : Report → Report} (wanted : Bool)
    (hcheck : Agrees (check r) (check' r')) :
    Agrees (r.andCheck wanted check) (r'.andCheck wanted check') := by
  unfold Report.andCheck
  rw [ok, ok, h.error]
  split
  · exact hcheck
  · exact h

/-- **Step**: the type check of a wrapped tree. -/
lemma checkTypes (h : Agrees r r') (n : Tree) :
    Agrees (Report.checkTypes n.wrapped r) (Report.checkTypes n r') := by
  unfold Report.checkTypes
  rw [Typing.check_wrapped, congrArg Config.strictOperandTypes h.config]
  split
  · rename_i table _
    have hnoted : Agrees { r with declaredTypes := table.items }
        { r' with declaredTypes := table.items } := { h with declaredTypes := rfl }
    exact (hnoted.pass .types).say _ _
  · exact h.fail _

/-- **Step**: the check of initialized variables. -/
lemma checkDataFlow (h : Agrees r r') (n : Tree) :
    Agrees (Report.checkDataFlow n.wrapped r) (Report.checkDataFlow n r') := by
  unfold Report.checkDataFlow
  rw [Initialized.check_wrapped]
  cases Initialized.check [] n with
  | finished names => exact (h.pass .dataflow).say _ _
  | stopped fault names => exact h.fail _

/-- **Step**: the check of divisions. -/
lemma checkMath (h : Agrees r r') (n : Tree) :
    Agrees (Report.checkMath n.wrapped r) (Report.checkMath n r') := by
  unfold Report.checkMath
  rw [KnownValues.check_wrapped, congrArg Config.branchScopedConstants h.config]
  split
  · rename_i known _
    have hnoted : Agrees { r with knownValues := known } { r' with knownValues := known } :=
      { h with knownValues := rfl }
    exact (hnoted.pass .math).say _ _
  · exact h.fail _

end Agrees

end Report

/-! ### The level of the wrapper -/

section

variable {stack : Stack} {config : Config} {n : Tree}

end

namespace Command

end Command

end Primer
