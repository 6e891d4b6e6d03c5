import Mathlib.Tactic
import Primer.Proofs.Stores

/-!
Programs without their nesting.

The type check carries one table through a program, and so does the check of divisions if values are
not kept apart. Neither of them sees how deep a statement is nested: the type check does the same on
the row of all stores, and the check of divisions on the row of all stores, returns and conditions,
with the expressions among them that stand where a statement belongs. A program that was read from a
text has no such expression.
-/

namespace Primer

open Progress

namespace Node

/-! ### The row of what is worked on -/

/-- A store and a return stand for themselves, a decision for its condition. -/
def steps : Tree → List Tree
  | .declare type x v loc => [.declare type x v loc]
  | .assign x v loc => [.assign x v loc]
  | .ret v loc => [.ret v loc]
  | .branch c _ _ _ => [c]
  | .whileLoop c _ _ => [c]
  | _ => []

/-- The nodes of a tree that stand where a statement belongs, which are those reached through rows,
bodies and `else` parts, in the order of the walk. -/
def standing (t : Tree) : List Tree := (t.places []).map Prod.fst

/-- The steps of a node that stands where a statement belongs, where an expression is a step too. -/
def work (n : Tree) : List Tree := if n.isExpression then [n] else n.steps

/-- The stores, returns and conditions of a tree, and the expressions that stand where a statement
belongs, in the order of the walk. -/
def worksteps (t : Tree) : List Tree := t.standing.flatMap work

lemma map_fst_places (n : Tree) : ∀ around, (n.places around).map Prod.fst = n.standing := by
  induction n using innerInduction with
  | step n ih =>
    intro around
    have hinner (around : List Tree) : (n.inner.flatMap (places around)).map Prod.fst =
        n.inner.flatMap standing := by
      rw [List.map_flatMap]
      exact List.flatMap_congr fun m hm => ih m hm around
    rw [standing, places_eq, places_eq, List.map_cons, List.map_cons, hinner, hinner]

lemma standing_eq (t : Tree) : t.standing = t :: t.inner.flatMap standing := by
  rw [standing, places_eq, List.map_cons, List.map_flatMap]
  congr 1
  exact List.flatMap_congr fun m _ => map_fst_places m [t]

lemma worksteps_eq (t : Tree) : t.worksteps = t.work ++ t.inner.flatMap worksteps := by
  rw [worksteps, standing_eq, List.flatMap_cons, List.flatMap_assoc]
  rfl

/-- What a node works on by itself is the node, or its condition. -/
lemma work_sublist (t : Tree) : t.work.Sublist (t :: t.operands) := by
  cases t with
  | branch | whileLoop => exact List.sublist_cons_self _ _
  | forLoop | block | program => exact List.nil_sublist _
  | _ => exact List.singleton_sublist.2 List.mem_cons_self

lemma sublist_flatMap_walk (ns : List Tree) : ns.Sublist (ns.flatMap walk) := by
  have heach : (ns.flatMap fun n => [n]).Sublist (ns.flatMap walk) :=
    List.Sublist.flatMap_right ns fun n _ => by rw [walk_eq]; simp
  rwa [List.flatMap_singleton'] at heach

/-- The row keeps the order of the walk. -/
lemma worksteps_sublist_walk (t : Tree) : t.worksteps.Sublist t.walk := by
  induction t using innerInduction with
  | step t ih =>
    have hwork : t.work.Sublist (t :: t.operands.flatMap walk) :=
      (work_sublist t).trans ((sublist_flatMap_walk t.operands).cons_cons t)
    have hinner : (t.inner.flatMap worksteps).Sublist (t.inner.flatMap walk) :=
      List.Sublist.flatMap_right t.inner ih
    rw [worksteps_eq, walk_eq, children_eq, List.flatMap_append, ← List.cons_append]
    exact hwork.append hinner

/-! ### Trees in which only statements stand where statements belong -/

lemma steps_eq_nil {n : Tree} (h : n.isStatement = false) : n.steps = [] := by
  cases n with
  | declare | assign | branch | whileLoop | forLoop | ret => cases h
  | _ => rfl

/-- Inside an expression there is no step. -/
lemma flatMap_steps_expression {e : Tree} (h : e.WellSorted) (he : e.isExpression) :
    e.walk.flatMap steps = [] := by
  have hnone : e.walk.filter isStatement = [] := statements_expression h he
  rw [List.flatMap_eq_nil_iff]
  intro n hn
  exact steps_eq_nil (by simpa using List.filter_eq_nil_iff.1 hnone n hn)

/-- In a well-sorted tree steps are found only in rows, bodies and `else` parts. -/
lemma flatMap_steps_eq {t : Tree} (h : t.WellSorted) :
    t.walk.flatMap steps = t.steps ++ t.inner.flatMap fun m => m.walk.flatMap steps := by
  have hoperands : (t.operands.flatMap fun e => e.walk.flatMap steps) = [] := by
    rw [List.flatMap_eq_nil_iff]
    intro e he
    exact flatMap_steps_expression (h.child (by simp [children_eq, he])) (h.operand he)
  rw [walk_eq, List.flatMap_cons, List.flatMap_assoc, children_eq, List.flatMap_append, hoperands,
    List.nil_append]

/-- If no expression stands where a statement belongs, the row holds the stores, the returns and the
conditions in the order of the walk, and nothing else. -/
lemma worksteps_eq_steps {t : Tree} (h : t.WellSorted)
    (hstanding : ∀ n ∈ t.standing, n.isExpression = false) :
    t.worksteps = t.walk.flatMap steps := by
  induction t using innerInduction with
  | step t ih =>
    rw [standing_eq, List.forall_mem_cons, List.forall_mem_flatMap] at hstanding
    rw [worksteps_eq, flatMap_steps_eq h, work, if_neg (by simp [hstanding.1])]
    congr 1
    refine List.flatMap_congr fun m hm => ?_
    exact ih m hm (h.child (inner_subset_children t hm)) (hstanding.2 m hm)

section

variable {ok : Literal → Prop} {n : Tree}

lemma IsStatement.isExpression (h : n.IsStatement ok) : n.isExpression = false := by
  cases n with
  | literal | name | binary => exact h.elim
  | _ => rfl

lemma IsStatement.inner (h : n.IsStatement ok) : ∀ m ∈ n.inner, m.IsStatement ok := by
  cases n with
  | branch c b e loc =>
    cases e with
    | none => simpa [Node.inner] using h.2
    | some e => simpa [Node.inner] using ⟨h.2.1, h.2.2.2⟩
  | whileLoop c b loc => simpa [Node.inner] using h.2
  | block ns loc => exact isStatements_iff.1 h
  | declare | assign | ret => simp [Node.inner]
  | _ => exact h.elim

lemma IsStatement.standing (h : n.IsStatement ok) :
    ∀ m ∈ n.standing, m.isExpression = false := by
  induction n using innerInduction with
  | step n ih =>
    rw [standing_eq, List.forall_mem_cons, List.forall_mem_flatMap]
    exact ⟨h.isExpression, fun m hm => ih m hm (h.inner m hm)⟩

lemma IsProgram.standing (h : n.IsProgram ok) : ∀ m ∈ n.standing, m.isExpression = false := by
  cases n with
  | program ns loc =>
    rw [standing_eq, List.forall_mem_cons, List.forall_mem_flatMap]
    exact ⟨rfl, fun m hm => (isStatements_iff.1 h m hm).standing⟩
  | _ => exact h.elim

end

end Node

open Node

/-! ### The checks on a flat row -/

namespace KnownValues

/-- With one table for all ways, a node is checked by what it works on itself and what stands
directly in it. -/
lemma check_work (known : Known) (t : Tree) :
    check false known t = each (check false) known (t.work ++ t.inner) := by
  cases t with
  | branch c b e loc =>
    cases e <;>
      simp [check, work, steps, isExpression, Node.inner, each, joinBranches, andThen_finished]
  | whileLoop c b loc =>
    simp [check, work, steps, isExpression, Node.inner, each, joinLoop, andThen_finished]
  | forLoop b loc =>
    simp [check, work, steps, isExpression, Node.inner, each, joinLoop, andThen_finished]
  | block ns loc | program ns loc => rw [check, checkAll_eq]; rfl
  | _ => simp [work, steps, isExpression, Node.inner, each, andThen_finished]

/-- **In order**: with one table for all ways, the check of divisions goes through the row of what
is worked on. -/
lemma check_eq_worksteps (t : Tree) :
    ∀ known, check false known t = each (check false) known t.worksteps := by
  induction t using innerInduction with
  | step t ih =>
    intro known
    have hinner (known : Known) : each (check false) known t.inner =
        each (check false) known (t.inner.flatMap worksteps) := each_flatMap ih known
    calc check false known t
      _ = each (check false) known (t.work ++ t.inner) := check_work known t
      _ = (each (check false) known t.work).andThen fun known =>
          each (check false) known (t.inner.flatMap worksteps) := by
        simp only [each_append, hinner]
      _ = each (check false) known t.worksteps := by rw [worksteps_eq, each_append]

end KnownValues

/-- **Nesting is not seen**: the type check of a well-sorted tree ends as that of the program of its
stores does, in both modes, and the check of divisions, if values are not kept apart, ends as that
of the block of its stores, returns, conditions and expressions in the place of statements. Both
rows keep the order of the walk. In a tree without such expressions, as is every tree that was read
from a text, the block holds the stores, returns and conditions only. -/
theorem nesting_unseen {t : Tree} (h : t.WellSorted) (loc : Option Span) :
    (∀ strict table, Typing.check strict table t =
      Typing.check strict table (.program t.stores loc)) ∧
    (∀ known, KnownValues.check false known t =
      KnownValues.check false known (.block t.worksteps loc)) ∧
    (t.stores.Sublist t.walk ∧ t.worksteps.Sublist t.walk) ∧
    ((∀ n ∈ t.standing, n.isExpression = false) → t.worksteps = t.walk.flatMap steps) ∧
    ∀ depth source, Grammar.parse depth source = .ok t →
      ∀ n ∈ t.standing, n.isExpression = false := by
  refine ⟨fun strict table => ?_, fun known => ?_, ⟨?_, worksteps_sublist_walk t⟩,
    worksteps_eq_steps h, ?_⟩
  · rw [Typing.check_eq_stores h, Typing.check, Typing.checkAll_eq]
  · rw [KnownValues.check_eq_worksteps, KnownValues.check, KnownValues.checkAll_eq]
  · exact List.filter_sublist
  · exact fun depth source hparse => (Grammar.isProgram_of_parse hparse).standing

def knottedRow : Tree :=
  .program [.declare "int" "x" (some (.literal (.int 0) none)) none,
    .branch (.name "x" none)
      (.block [.assign "x" (.literal (.int 2) none) none,
        .whileLoop (.binary "%" (.literal (.int 7) none) (.name "x" none) none)
          (.forLoop (.ret (some (.name "x" none)) none) none) none] none)
      (some (.binary "/" (.name "x" none) (.name "x" none) none)) none,
    .assign "x" (.literal (.text "a") none) none] none

theorem nesting_unseen_knotted :
    knottedRow.WellSorted ∧ (knottedRow.stores.length = 3 ∧ knottedRow.worksteps.length = 7) ∧
    Typing.check true .empty knottedRow =
      Typing.check true .empty (.program knottedRow.stores none) ∧
    KnownValues.check false [("y", .int 1)] knottedRow =
      KnownValues.check false [("y", .int 1)] (.block knottedRow.worksteps none) := by
  have hsorted : knottedRow.WellSorted := by decide
  obtain ⟨htypes, hvalues, -⟩ := nesting_unseen hsorted none
  exact ⟨hsorted, ⟨rfl, rfl⟩, htypes true .empty, hvalues [("y", .int 1)]⟩

def looseQuotient : Tree :=
  .block [.binary "/" (.literal (.int 1) none) (.literal (.int 0) none) none] none

/-- The check stops at an expression in the place of a statement, so a row without it is checked
otherwise. -/
theorem looseQuotient_seen :
    looseQuotient.WellSorted ∧ KnownValues.check false [] looseQuotient ≠
      KnownValues.check false [] (.block (looseQuotient.walk.flatMap steps) none) := by
  have hstopped : KnownValues.check false [] looseQuotient = .stopped (.literal "/" none) [] := rfl
  have hflat : looseQuotient.walk.flatMap steps = [] := rfl
  refine ⟨by decide, ?_⟩
  rw [hstopped, hflat]
  rintro ⟨⟩

end Primer
