import Mathlib.Tactic
import Primer.Diagnostic.Basic
import Primer.Proofs.TreeShape

/-!
Where a tree that is too deep is refused.

The search for a node that is too deep can be told as a loop over a stack. In each turn the node on
top is taken off, and unless it is too deep its children are put on, the last of them on top. No
node is put on twice, so the loop ends. The node that it finds is the last one in the walk on the
first level below the limit, and the place it reports is the nearest one that is recorded at this
node or above it.
-/

namespace Primer.Node

variable {α : Type} {limit : ℕ}

/-! ### Nodes with those above them -/

/-- The nodes of a tree in the order of the walk, each followed by the nodes above it, the nearest
first. The root of the tree stands below the nodes `above`. -/
def lineages (above : List (Node α)) (n : Node α) : List (List (Node α)) :=
  (n :: above) :: n.children.attach.flatMap fun c => c.1.lineages (n :: above)
termination_by n.height
decreasing_by exact height_lt_of_mem_children c.2

lemma lineages_eq (above : List (Node α)) (n : Node α) :
    n.lineages above = (n :: above) :: n.children.flatMap (lineages (n :: above)) := by
  rw [lineages, ← List.flatMap_map Subtype.val, List.attach_map_subtype_val]

lemma map_head?_lineages (n : Node α) :
    ∀ above, (n.lineages above).map List.head? = n.walk.map some := by
  induction n using childInduction with
  | step n ih =>
    intro above
    rw [lineages_eq, walk_eq, List.map_cons, List.map_cons, List.map_flatMap, List.map_flatMap,
      List.flatMap_congr fun c hc => ih c hc (n :: above), List.head?_cons]

/-- The nodes of a tree are below all those above it. -/
lemma length_lt_of_mem_lineages (n : Node α) :
    ∀ above, ∀ way ∈ n.lineages above, above.length < way.length := by
  induction n using childInduction with
  | step n ih =>
    intro above way hway
    rw [lineages_eq, List.mem_cons, List.mem_flatMap] at hway
    rcases hway with rfl | ⟨c, hc, hway⟩
    · simp
    · have hlt := ih c hc (n :: above) way hway
      rw [List.length_cons] at hlt
      omega

/-! ### The node that is found -/

lemma findSome?_congr {β γ : Type} {f g : β → Option γ} {l : List β} (h : ∀ b ∈ l, f b = g b) :
    l.findSome? f = l.findSome? g := by
  rw [← List.head?_filterMap, List.filterMap_congr h, List.head?_filterMap]

lemma findSome?_cons_orElse {β γ : Type} (f : β → Option γ) (b : β) (l : List β) :
    (b :: l).findSome? f = (f b <|> l.findSome? f) := by
  rw [List.findSome?_cons]
  cases f b <;> rfl

/-- The search looks at the children of a node from the last to the first. -/
lemma overflowFrom_eq (limit depth : ℕ) (near : Option Span) (n : Node α) :
    n.overflowFrom limit depth near =
      if limit < depth then some near
      else n.children.reverse.findSome? fun c =>
        c.overflowFrom limit (depth + 1) (c.location <|> near) := by
  have all (ns : List (Node α)) : overflowAll limit (depth + 1) near ns =
      ns.reverse.findSome? fun c => c.overflowFrom limit (depth + 1) (c.location <|> near) := by
    induction ns with
    | nil => rfl
    | cons n ns ih => simp [overflowAll, ih, List.findSome?_append]
  rw [← all]
  cases n with
  | declare t x v => cases v <;> simp [overflowFrom, children, overflowAll]
  | branch c b e => cases e <;> simp [overflowFrom, children, overflowAll, Option.or_assoc]
  | ret v => cases v <;> simp [overflowFrom, children, overflowAll]
  | _ => simp [overflowFrom, children, overflowAll]

/-- The search in a tree that stands below other nodes answers for the last node on the level of the
limit, if there is one. -/
lemma overflowFrom_eq_getLast? (n : Node α) : ∀ above : List (Node α), above.length ≤ limit →
    n.overflowFrom limit (above.length + 1) ((n :: above).findSome? location) =
      ((n.lineages above).filter fun way => way.length = limit + 1).getLast?.map
        (List.findSome? location) := by
  induction n using childInduction with
  | step n ih =>
    intro above habove
    rw [overflowFrom_eq, lineages_eq]
    split
    · -- the node itself is on this level, and all the others are below it
      rename_i hdeep
      have hself : (n :: above).length = limit + 1 := by rw [List.length_cons]; omega
      have hbelow : (n.children.flatMap (lineages (n :: above))).filter
          (fun way => way.length = limit + 1) = [] := by
        rw [List.filter_eq_nil_iff, List.forall_mem_flatMap]
        intro c _ way hway
        have hlt := length_lt_of_mem_lineages c (n :: above) way hway
        simp only [decide_eq_true_eq]
        omega
      rw [List.filter_cons_of_pos (by simpa using hself), hbelow, List.getLast?_singleton,
        Option.map_some]
    · rename_i hshallow
      have hself : (n :: above).length ≠ limit + 1 := by rw [List.length_cons]; omega
      rw [List.filter_cons_of_neg (by simpa using hself), List.filter_flatMap,
        List.getLast?_flatMap, List.map_findSome?]
      refine findSome?_congr fun c hc => ?_
      rw [← findSome?_cons_orElse location c]
      exact ih c (List.mem_reverse.1 hc) (n :: above) (by rw [List.length_cons]; omega)

lemma overflow?_eq_getLast? (limit : ℕ) (t : Node α) :
    t.overflow? limit = ((t.lineages []).filter fun way => way.length = limit + 1).getLast?.map
      (List.findSome? location) := by
  have hroot : t.location = [t].findSome? location := by simp [findSome?_cons_orElse]
  rw [overflow?, hroot]
  exact overflowFrom_eq_getLast? t [] (Nat.zero_le _)

/-! ### The loop over a stack -/

/-- A node on the stack, with its level and the place that is recorded nearest to it. -/
structure Waiting (α : Type) where
  node : Node α
  level : ℕ
  near : Option Span

namespace Waiting

def opened (w : Waiting α) : List (Waiting α) :=
  w.node.children.map fun c => ⟨c, w.level + 1, c.location <|> w.near⟩

def finds (limit : ℕ) (w : Waiting α) : Option (Option Span) :=
  w.node.overflowFrom limit w.level w.near

def load (stack : List (Waiting α)) : ℕ := (stack.map fun w => w.node.walk.length).sum

variable {w : Waiting α}

lemma load_append (stack rest : List (Waiting α)) :
    load (stack ++ rest) = load stack + load rest := by
  simp [load]

/-- A node that is taken off is replaced by all that is below it. -/
lemma load_cons (w : Waiting α) (rest : List (Waiting α)) :
    load (w :: rest) = load (w.opened.reverse ++ rest) + 1 := by
  have hbelow : load w.opened.reverse = (w.node.children.map fun c => c.walk.length).sum := by
    simp [load, opened, Function.comp_def]
  rw [load_append, hbelow, load, List.map_cons, List.sum_cons, walk_eq, List.length_cons,
    List.length_flatMap, load]
  omega

lemma finds_of_deep (h : limit < w.level) : w.finds limit = some w.near := by
  rw [finds, overflowFrom_eq, if_pos h]

lemma finds_of_opened (h : w.level ≤ limit) :
    w.finds limit = w.opened.reverse.findSome? (finds limit) := by
  rw [finds, overflowFrom_eq, if_neg (by omega), opened, ← List.map_reverse, List.findSome?_map]
  rfl

end Waiting

open Waiting

/-- The loop ends from a stack, its top first, after a number of turns with an answer: it runs out
of nodes, or it takes off one that is too deep, or it goes on with the children of the node it took
off. -/
inductive Ends (limit : ℕ) : List (Waiting α) → ℕ → Option (Option Span) → Prop
  | empty : Ends limit [] 0 none
  | deep {w rest} (h : limit < w.level) : Ends limit (w :: rest) 1 (some w.near)
  | opened {w rest turns answer} (h : w.level ≤ limit)
      (hrest : Ends limit (w.opened.reverse ++ rest) turns answer) :
      Ends limit (w :: rest) (turns + 1) answer

lemma Ends.unique {stack : List (Waiting α)} {turns turns' : ℕ}
    {answer answer' : Option (Option Span)} (h : Ends limit stack turns answer)
    (h' : Ends limit stack turns' answer') : turns' = turns ∧ answer' = answer := by
  induction h generalizing turns' answer' with
  | empty =>
    cases h'
    exact ⟨rfl, rfl⟩
  | deep hdeep =>
    cases h' with
    | deep => exact ⟨rfl, rfl⟩
    | opened hle => omega
  | opened hle _ ih =>
    cases h' with
    | deep hdeep => omega
    | opened _ hrest =>
      obtain ⟨rfl, rfl⟩ := ih hrest
      exact ⟨rfl, rfl⟩

/-- **The loop ends**: each turn takes a node away for good, so there are no more turns than nodes,
and the answer is that of the search from the nodes on the stack. -/
lemma exists_ends (limit : ℕ) (stack : List (Waiting α)) :
    ∃ turns ≤ load stack, Ends limit stack turns (stack.findSome? (finds limit)) := by
  induction hk : load stack using Nat.strong_induction_on generalizing stack with
  | _ k ih =>
    subst hk
    cases stack with
    | nil => exact ⟨0, Nat.zero_le _, .empty⟩
    | cons w rest =>
      have hload := load_cons w rest
      by_cases hdeep : limit < w.level
      · refine ⟨1, by omega, ?_⟩
        rw [List.findSome?_cons, finds_of_deep hdeep]
        exact .deep hdeep
      · obtain ⟨turns, hturns, hends⟩ := ih _ (by omega) (w.opened.reverse ++ rest) rfl
        refine ⟨turns + 1, by omega, ?_⟩
        have hanswer : (w :: rest).findSome? (finds limit) =
            (w.opened.reverse ++ rest).findSome? (finds limit) := by
          rw [List.findSome?_append, ← finds_of_opened (by omega), findSome?_cons_orElse]
          exact Option.orElse_eq_or
        rw [hanswer]
        exact .opened (by omega) hends

/-! ### The refusal -/

/-- **Nesting is measured exactly.** A tree is refused exactly if it has more levels than the limit,
by an error of the parser. The node past the limit is the last one in the walk on the level behind
the limit, and the place of the error is that of the nearest node at or above it that has one. The
loop over a stack that starts with the root ends after no more turns than the tree has nodes, with
this answer. -/
theorem nesting_refused (limit : ℕ) (t : Node α) :
    (((t.overflow? limit).map (Diagnostic.nesting limit)).isSome ↔ limit < t.height) ∧
    (∀ d, (t.overflow? limit).map (Diagnostic.nesting limit) = some d →
      d.category = .parser ∧ d.code.text = "CS-1002" ∧
      ∃ way, ((t.lineages []).filter fun way => way.length = limit + 1).getLast? = some way ∧
        d.location = way.findSome? location) ∧
    (t.lineages []).map List.head? = t.walk.map some ∧
    ∃ turns ≤ t.walk.length, ∀ k answer,
      Ends limit [⟨t, 1, t.location⟩] k answer ↔ k = turns ∧ answer = t.overflow? limit := by
  refine ⟨?_, ?_, map_head?_lineages t [], ?_⟩
  · rw [Option.isSome_map, ← not_iff_not, not_lt, Bool.not_eq_true, Option.isSome_eq_false_iff,
      Option.isNone_iff_eq_none, overflow?_eq_none_iff]
  · intro d hd
    obtain ⟨found, hfound, rfl⟩ := Option.map_eq_some_iff.1 hd
    rw [overflow?_eq_getLast?] at hfound
    obtain ⟨way, hway, rfl⟩ := Option.map_eq_some_iff.1 hfound
    have hcode : Code.nestingTooDeep.text = "CS-1002" := by decide
    exact ⟨rfl, hcode, way, hway, rfl⟩
  · obtain ⟨turns, hturns, hends⟩ := exists_ends limit [⟨t, 1, t.location⟩]
    have hanswer : [(⟨t, 1, t.location⟩ : Waiting α)].findSome? (finds limit) =
        t.overflow? limit := by
      simp [findSome?_cons_orElse, finds, overflow?]
    rw [hanswer] at hends
    refine ⟨turns, by simpa [load] using hturns, fun k answer => ⟨hends.unique, ?_⟩⟩
    rintro ⟨rfl, rfl⟩
    exact hends

def unplacedTail : Tree :=
  .program [.assign "x" (.binary "+" (.literal (.int 1) none) (.name "y" none)
      (some ⟨{ line := 1 }, { line := 1 }⟩)) none,
    .ret (some (.name "z" none)) (some ⟨{ line := 2 }, { line := 2 }⟩)] none

theorem nesting_refused_unplaced :
    2 < unplacedTail.height ∧
    (unplacedTail.overflow? 2).map (Diagnostic.nesting 2) =
      some (.nesting 2 (some ⟨{ line := 2 }, { line := 2 }⟩)) ∧
    ∃ way, ((unplacedTail.lineages []).filter fun way => way.length = 2 + 1).getLast? = some way ∧
      way.head? = some (.name "z" none) ∧
      way.findSome? location = some ⟨{ line := 2 }, { line := 2 }⟩ := by
  have hfound : (unplacedTail.overflow? 2).map (Diagnostic.nesting 2) =
      some (.nesting 2 (some ⟨{ line := 2 }, { line := 2 }⟩)) := rfl
  obtain ⟨hrefused, hplace, -⟩ := nesting_refused 2 unplacedTail
  obtain ⟨-, -, way, hway, hnear⟩ := hplace _ hfound
  refine ⟨hrefused.1 rfl, hfound, way, hway, ?_, hnear.symm⟩
  have hlast : ((unplacedTail.lineages []).filter fun way => way.length = 2 + 1).getLast? =
      some [.name "z" none, .ret (some (.name "z" none)) (some ⟨{ line := 2 }, { line := 2 }⟩),
        unplacedTail] := by
    simp [unplacedTail, lineages_eq, children]
  rw [hlast] at hway
  rw [← Option.some.inj hway, List.head?_cons]

end Primer.Node
