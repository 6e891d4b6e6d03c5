import Primer.View.Token

/-!
Statements in plain words.

Every statement gets a sentence for the learner; marks for bold text stay in it.
-/

namespace Primer.Node

/-- An expression as text; anything else is an ellipsis. -/
def expressionText : Tree → String
  | .binary op l r _ => l.expressionText ++ " " ++ op ++ " " ++ r.expressionText
  | .name x _ => x
  | .literal v _ => v.shown
  | _ => "..."

/-- The text of an expression that may be missing. -/
def expressionText? : Option Tree → String
  | some e => e.expressionText
  | none => "..."

/-- What is said about a node that is not explained further. -/
def plainExplanation : String := "This is a C++ statement."

/-- The sentence for a node. -/
def explanation : Tree → String
  | .declare t x none _ =>
    "You are declaring a new variable named **" ++ x ++ "**. It is a storage box that holds **" ++
      t ++ "** data. It has not been given a value yet."
  | .declare t x (some v) _ =>
    "You are declaring a new variable named **" ++ x ++ "**. It is a storage box that holds **" ++
      t ++ "** data. You have initialized it with the value **" ++ v.expressionText ++ "**."
  | .assign x v _ =>
    "You are updating the value of **" ++ x ++ "**. The old value is erased, and **" ++
      v.expressionText ++ "** is stored in its place."
  | .whileLoop c _ _ =>
    "This is a **Loop**. The computer will keep repeating the code inside this block as long as " ++
      "the condition **(" ++ c.expressionText ++
      ")** remains True. Be careful of infinite loops!"
  | .forLoop _ _ =>
    "This is a **Loop**. The computer runs the code inside this block once for every round the " ++
      "loop header allows."
  | .branch c _ _ _ =>
    "This is a **Decision Gate**. The computer checks **(" ++ c.expressionText ++
      ")**. If it is True, it enters the block. If False, it skips it."
  | _ => plainExplanation

/-- Whether a node is a statement other than a block. -/
def isStatement : Tree → Bool
  | .declare .. | .assign .. | .branch .. | .whileLoop .. | .forLoop .. | .ret .. => true
  | _ => false

/-- The statements of a program in source order, each with its line and its sentence. -/
def explanations (n : Tree) : List (Option Int × String) :=
  (n.walk.filter isStatement).map fun s => (s.line?, s.explanation)

end Primer.Node
