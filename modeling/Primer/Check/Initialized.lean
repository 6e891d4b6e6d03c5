import Primer.Check.Progress
import Primer.Diagnostic.Basic
import Primer.Tree.Basic

/-!
Variables are set before they are read.

A declaration, with or without a value, and an assignment set a variable. What is set inside a
block, a branch or a loop body counts only there.
-/

namespace Primer

/-- A read of a variable that may not be set. -/
structure UnsetRead where
  name : String
  location : Option Span
deriving DecidableEq, Repr

def UnsetRead.diagnostic (r : UnsetRead) : Diagnostic := .uninitializedUse r.name r.location

namespace Initialized

/-- The names that are set. -/
abbrev Names := List String

/-- The names with one more. -/
def insert (x : String) (names : Names) : Names := if names.contains x then names else names ++ [x]

abbrev Outcome := Progress Names UnsetRead

mutual

/-- The names set after a tree, from those set before it. -/
def check (names : Names) : Tree → Outcome
  | .literal _ _ => .finished names
  | .name x loc => if names.contains x then .finished names else .stopped ⟨x, loc⟩ names
  | .binary _ l r _ => (check names l).andThen fun names => check names r
  | .declare _ x none _ => .finished (insert x names)
  | .declare _ x (some v) _ => (check names v).andThen fun names => .finished (insert x names)
  | .assign x v _ => (check names v).andThen fun names => .finished (insert x names)
  | .branch c b none _ =>
    (check names c).andThen fun names => (check names b).withState names
  | .branch c b (some e) _ =>
    (check names c).andThen fun names =>
      ((check names b).withState names).andThen fun names => (check names e).withState names
  | .whileLoop c b _ =>
    (check names c).andThen fun names => (check names b).withState names
  | .forLoop b _ => (check names b).withState names
  | .ret none _ => .finished names
  | .ret (some v) _ => check names v
  | .block ns _ => (checkAll names ns).withState names
  | .program ns _ => (checkAll names ns).withState names

def checkAll (names : Names) : List Tree → Outcome
  | [] => .finished names
  | n :: ns => (check names n).andThen fun names => checkAll names ns

end

end Initialized

end Primer
