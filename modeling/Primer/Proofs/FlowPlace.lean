import Mathlib.Data.List.Basic
import Mathlib.Tactic
import Primer.Flow.Graph

/-!
Where the piece of a tree stands in the graph.

The nodes of a piece have consecutive numbers. Its edges start at the point that control enters
from or inside the piece, and end inside the piece. Control leaves from inside the piece, unless
the piece is empty.
-/

namespace Primer

/-- The node for a stored value has a label of its own, whatever is stored: no other label ends in a
dot. -/
lemma FlowNode.stored_not_mem {labels : List String}
    (hlabels : ∀ label ∈ labels, label.toList.getLast? ≠ some '.') (s : String) :
    s ++ " = ..." ∉ labels := by
  intro hmem
  exact hlabels _ hmem (by simp)

/-- The piece has the numbers from `next` on, and control enters it from `previous`. -/
structure Fragment.Placed (next previous : ℕ) (f : Fragment) : Prop where
  numbered : f.nodes.map FlowNode.id = List.range' next f.nodes.length
  edges : ∀ e ∈ f.edges,
    (e.source = previous ∨ (next ≤ e.source ∧ e.source < next + f.nodes.length)) ∧
      next ≤ e.target ∧ e.target < next + f.nodes.length
  leave : (f.leave = previous ∧ f.nodes = [] ∧ f.edges = []) ∨
    (next ≤ f.leave ∧ f.leave < next + f.nodes.length)

namespace Node

open Fragment (Placed)

lemma placed_empty (next previous : ℕ) : Placed next previous ⟨[], [], previous⟩ where
  numbered := rfl
  edges := by simp
  leave := Or.inl ⟨rfl, rfl, rfl⟩

lemma placed_step (next previous : ℕ) (label description : String) (loc : Option Span) :
    Placed next previous (step next previous label description loc) where
  numbered := rfl
  edges := by simp [step]
  leave := Or.inr (by simp [step])

lemma placed_andThen {next previous : ℕ} {f g : Fragment} (hf : Placed next previous f)
    (hg : Placed (next + f.nodes.length) f.leave g) : Placed next previous (f.andThen g) where
  numbered := by
    rw [Fragment.andThen, List.map_append, hf.numbered, hg.numbered, List.length_append,
      List.range'_append_1]
  edges := by
    intro e he
    simp only [Fragment.andThen, List.length_append] at he ⊢
    have hl := hf.leave
    rcases List.mem_append.mp he with he | he
    · have := hf.edges e he
      omega
    · have := hg.edges e he
      omega
  leave := by
    simp only [Fragment.andThen, List.length_append]
    rcases hg.leave with ⟨hl, hn, he⟩ | hl
    · rcases hf.leave with ⟨hl', hn', he'⟩ | hl'
      · exact Or.inl ⟨hl.trans hl', by simp [hn, hn'], by simp [he, he']⟩
      · right
        omega
    · right
      omega

lemma placed_decision {next previous : ℕ} {yes no : Fragment} (loc : Option Span)
    (hy : Placed (next + 1) next yes) (hn : Placed (next + 1 + yes.nodes.length) next no) :
    Placed next previous (decision next previous loc yes no) where
  numbered := by
    simp only [decision, List.map_cons, List.map_append, hy.numbered, hn.numbered, List.map_nil,
      List.length_cons, List.length_append, List.length_nil, List.range'_append_1]
    rw [show [next + 1 + yes.nodes.length + no.nodes.length] =
      List.range' (next + 1 + (yes.nodes.length + no.nodes.length)) 1 by simp [Nat.add_assoc],
      List.range'_append_1, ← List.range'_succ]
  edges := by
    intro e he
    simp only [decision, List.mem_cons, List.mem_append, List.not_mem_nil, or_false,
      List.length_cons, List.length_append, List.length_nil] at he ⊢
    have hly := hy.leave
    have hln := hn.leave
    rcases he with rfl | ((he | he) | rfl | rfl)
    · dsimp only
      omega
    · have := hy.edges e he
      omega
    · have := hn.edges e he
      omega
    · dsimp only
      omega
    · dsimp only
      omega
  leave := by
    right
    simp only [decision, List.length_cons, List.length_append, List.length_nil]
    omega

lemma placed_loop {next previous : ℕ} {body : Fragment} (loc : Option Span)
    (header footer : String × String) (hb : Placed (next + 1) next body) :
    Placed next previous (loop next previous loc header footer body) where
  numbered := by
    simp only [loop, List.map_cons, List.map_append, hb.numbered, List.map_nil,
      List.length_cons, List.length_append, List.length_nil]
    rw [show [next + 1 + body.nodes.length] = List.range' (next + 1 + body.nodes.length) 1 from rfl,
      List.range'_append_1, ← List.range'_succ]
  edges := by
    intro e he
    simp only [loop, List.mem_cons, List.mem_append, List.not_mem_nil, or_false,
      List.length_cons, List.length_append, List.length_nil] at he ⊢
    have hl := hb.leave
    rcases he with rfl | (he | rfl | rfl)
    · dsimp only
      omega
    · have := hb.edges e he
      omega
    · dsimp only
      omega
    · dsimp only
      omega
  leave := by
    right
    simp only [loop, List.length_cons, List.length_append, List.length_nil]
    omega

lemma flowAll_placed {ns : List Tree}
    (ih : ∀ n ∈ ns, ∀ next previous, Placed next previous (flow next previous n)) :
    ∀ next previous, Placed next previous (flowAll next previous ns) := by
  induction ns with
  | nil => exact placed_empty
  | cons n ns ihs =>
    intro next previous
    exact placed_andThen (ih n (by simp) next previous)
      (ihs (fun m hm => ih m (by simp [hm])) _ _)

lemma flow_placed (t : Tree) :
    ∀ next previous, Placed next previous (t.flow next previous) := by
  induction t using Node.induction with
  | literal | name | binary => exact placed_empty
  | declare | assign | ret =>
    intro next previous
    exact placed_step next previous _ _ _
  | branch c b e loc ihc ihb ihe =>
    intro next previous
    rcases e with _ | e
    · exact placed_decision loc (ihb _ _) (placed_empty _ _)
    · exact placed_decision loc (ihb _ _) (ihe e rfl _ _)
  | whileLoop c b loc ihc ihb =>
    intro next previous
    exact placed_loop loc _ _ (ihb _ _)
  | forLoop b loc ihb =>
    intro next previous
    exact placed_loop loc _ _ (ihb _ _)
  | block ns loc ih | program ns loc ih => exact flowAll_placed ih

end Node

end Primer
