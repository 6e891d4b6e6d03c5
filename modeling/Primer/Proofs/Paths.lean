import Mathlib.Computability.Language
import Primer.Tree.Basic

/-!
The paths through a tree.

A path lists the nodes of a tree in the order in which one run works on them: a name where it is
read, an operation where it is begun, before its operands, and a declaration or an assignment
where it is complete, behind its value. A decision runs one of its two ways, and a missing second
way is empty. A return does not end a path, just as no pass stops at one.

How often the body of a loop runs is left open: the paths of a tree are taken under a rule that
gives the paths of a loop from those of its condition and its body.
-/

namespace Primer.Node

open Computability

/-- The paths of a loop, from those of its condition and those of its body. -/
abbrev Looping := Language Tree → Language Tree → Language Tree

/-- The condition, and then any number of times the body and again the condition. -/
def freely : Looping := fun c b => c * (b * c)∗

/-- The condition, and then the body once or not at all. -/
def atMostOnce : Looping := fun c b => c * (b + 1)

mutual

/-- The paths through a tree. The loop without a condition has an empty one. -/
def paths (loop : Looping) : Tree → Language Tree
  | .literal _ _ => 1
  | .name x loc => {[.name x loc]}
  | .binary op l r loc => {[.binary op l r loc]} * (l.paths loop * r.paths loop)
  | .declare t x none loc => {[.declare t x none loc]}
  | .declare t x (some v) loc => v.paths loop * {[.declare t x (some v) loc]}
  | .assign x v loc => v.paths loop * {[.assign x v loc]}
  | .branch c b none _ => c.paths loop * (b.paths loop + 1)
  | .branch c b (some e) _ => c.paths loop * (b.paths loop + e.paths loop)
  | .whileLoop c b _ => loop (c.paths loop) (b.paths loop)
  | .forLoop b _ => loop 1 (b.paths loop)
  | .ret none _ => 1
  | .ret (some v) _ => v.paths loop
  | .block ns _ => pathsAll loop ns
  | .program ns _ => pathsAll loop ns

def pathsAll (loop : Looping) : List Tree → Language Tree
  | [] => 1
  | n :: ns => n.paths loop * pathsAll loop ns

end

/-- A path of a loop that runs freely is a path of the condition with rounds behind it. -/
lemma mem_freely {c b : Language Tree} {p : List Tree} :
    p ∈ freely c b ↔ ∃ q ∈ c, ∃ rounds : List (List Tree),
      (∀ r ∈ rounds, r ∈ b * c) ∧ p = q ++ rounds.flatten := by
  simp only [freely, Language.mem_mul, Language.mem_kstar]
  constructor
  · rintro ⟨q, hq, r, ⟨rounds, rfl, hr⟩, rfl⟩
    exact ⟨q, hq, rounds, hr, rfl⟩
  · rintro ⟨q, hq, rounds, hr, rfl⟩
    exact ⟨q, hq, _, ⟨rounds, rfl, hr⟩, rfl⟩

end Primer.Node
