import Primer.Tree.Basic

/-!
The depth of a tree.

`overflow?` looks for a node below a given number of levels, last child first, and answers with
the nearest place recorded on the way down to it.
-/

namespace Primer.Node

variable {α : Type}

mutual

/-- Looks for a node that is more than `limit` levels deep. `depth` is the level of the node
itself and `near` the place recorded nearest to it, so far. -/
def overflowFrom (limit depth : Nat) (near : Option Span) : Node α → Option (Option Span)
  | .literal _ _ => if limit < depth then some near else none
  | .name _ _ => if limit < depth then some near else none
  | .binary _ l r _ =>
    if limit < depth then some near
    else r.overflowFrom limit (depth + 1) (r.location <|> near) <|>
      l.overflowFrom limit (depth + 1) (l.location <|> near)
  | .declare _ _ none _ => if limit < depth then some near else none
  | .declare _ _ (some v) _ =>
    if limit < depth then some near
    else v.overflowFrom limit (depth + 1) (v.location <|> near)
  | .assign _ v _ =>
    if limit < depth then some near
    else v.overflowFrom limit (depth + 1) (v.location <|> near)
  | .branch c b none _ =>
    if limit < depth then some near
    else b.overflowFrom limit (depth + 1) (b.location <|> near) <|>
      c.overflowFrom limit (depth + 1) (c.location <|> near)
  | .branch c b (some e) _ =>
    if limit < depth then some near
    else e.overflowFrom limit (depth + 1) (e.location <|> near) <|>
      b.overflowFrom limit (depth + 1) (b.location <|> near) <|>
      c.overflowFrom limit (depth + 1) (c.location <|> near)
  | .whileLoop c b _ =>
    if limit < depth then some near
    else b.overflowFrom limit (depth + 1) (b.location <|> near) <|>
      c.overflowFrom limit (depth + 1) (c.location <|> near)
  | .forLoop b _ =>
    if limit < depth then some near
    else b.overflowFrom limit (depth + 1) (b.location <|> near)
  | .ret none _ => if limit < depth then some near else none
  | .ret (some v) _ =>
    if limit < depth then some near
    else v.overflowFrom limit (depth + 1) (v.location <|> near)
  | .block ns _ => if limit < depth then some near else overflowAll limit (depth + 1) near ns
  | .program ns _ => if limit < depth then some near else overflowAll limit (depth + 1) near ns

def overflowAll (limit depth : Nat) (near : Option Span) : List (Node α) → Option (Option Span)
  | [] => none
  | n :: ns =>
    overflowAll limit depth near ns <|> n.overflowFrom limit depth (n.location <|> near)

end

/-- The place of the first node found more than `limit` levels deep. -/
def overflow? (limit : Nat) (n : Node α) : Option (Option Span) :=
  n.overflowFrom limit 1 n.location

/-- The deepest tree that the passes accept. -/
def maxLevels : Nat := 200

end Primer.Node
