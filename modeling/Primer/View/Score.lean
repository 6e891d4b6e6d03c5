import Primer.Json.Basic
import Primer.Stack
import Primer.Tree.Basic

/-!
How complex a program is.

A control structure costs one, and one more for every control structure around it. The total
gives a rank. The score is found by calls inside one another: two for a control structure around
what stands in it, five for a row of statements and four for anything else. Where a machine has no
room for them there is no score.
-/

namespace Primer

inductive Rank where
  | sPlus
  | a
  | b
  | c
  | f
deriving DecidableEq, Repr

namespace Rank

/-- The rank of a score. -/
def ofScore (score : Int) : Rank :=
  if score ≤ 0 then .sPlus
  else if score ≤ 5 then .a
  else if score ≤ 10 then .b
  else if score ≤ 15 then .c
  else .f

def text : Rank → String
  | .sPlus => "S+"
  | .a => "A"
  | .b => "B"
  | .c => "C"
  | .f => "F"

def title : Rank → String
  | .sPlus => "Perfectly Flat"
  | .a => "Clean"
  | .b => "Acceptable"
  | .c => "Complex"
  | .f => "Spaghetti Code"

/-- The rank with a given code. -/
def ofText? (s : String) : Option Rank :=
  [sPlus, a, b, c, f].find? fun r => r.text == s

end Rank

/-- A score with its rank. -/
structure ScoreCard where
  score : Int
  rank : Rank
deriving DecidableEq, Repr

namespace ScoreCard

def caption (c : ScoreCard) : String := c.rank.text ++ " (" ++ c.rank.title ++ ")"

def toJson (c : ScoreCard) : Json :=
  .obj [("score", .int c.score), ("rank", .str c.rank.text), ("title", .str c.rank.title)]

end ScoreCard

namespace Node

mutual

/-- The score of a tree inside `depth` control structures. -/
def scoreAt (depth : Int) : Tree → Int
  | .branch _ b none _ => 1 + depth + b.scoreAt (depth + 1)
  | .branch _ b (some e) _ => 1 + depth + b.scoreAt (depth + 1) + e.scoreAt (depth + 1)
  | .whileLoop _ b _ => 1 + depth + b.scoreAt (depth + 1)
  | .forLoop b _ => 1 + depth + b.scoreAt (depth + 1)
  | .block ns _ => scoreAll depth ns
  | .program ns _ => scoreAll depth ns
  | _ => 0

def scoreAll (depth : Int) : List Tree → Int
  | [] => 0
  | n :: ns => n.scoreAt depth + scoreAll depth ns

end

def score (n : Tree) : Int := n.scoreAt 0

def scoreCard (n : Tree) : ScoreCard := ⟨n.score, .ofScore n.score⟩

mutual

/-- The score of a tree inside `depth` control structures, on a machine with room for `room` calls
inside one another. -/
def scoreWithin (room : Nat) (depth : Int) : Tree → Except Overflow Int
  | .branch _ b none _ => do
    let room ← roomInside 2 room
    return 1 + depth + (← b.scoreWithin room (depth + 1))
  | .branch _ b (some e) _ => do
    let room ← roomInside 2 room
    let inner ← b.scoreWithin room (depth + 1)
    return 1 + depth + inner + (← e.scoreWithin room (depth + 1))
  | .whileLoop _ b _ => do
    let room ← roomInside 2 room
    return 1 + depth + (← b.scoreWithin room (depth + 1))
  | .forLoop b _ => do
    let room ← roomInside 2 room
    return 1 + depth + (← b.scoreWithin room (depth + 1))
  | .block ns _ => do scoreAllWithin (← roomInside 5 room) depth ns
  | .program ns _ => do scoreAllWithin (← roomInside 5 room) depth ns
  | _ => do
    let _ ← roomInside 4 room
    return 0

def scoreAllWithin (room : Nat) (depth : Int) : List Tree → Except Overflow Int
  | [] => return 0
  | n :: ns => do
    let first ← n.scoreWithin room depth
    return first + (← scoreAllWithin room depth ns)

end

/-- The score of a tree with its rank, on a machine with room for `room` calls. -/
def scoreCardWithin (room : Nat) (n : Tree) : Except Overflow ScoreCard := do
  let score ← n.scoreWithin room 0
  return ⟨score, .ofScore score⟩

end Node

end Primer
