import Mathlib.Tactic
import Primer.Proofs.LexicalScope
import Primer.Proofs.StatementViews

/-!
What a refused statement leaves behind where values are kept apart.

The check of divisions changes its table as it goes, and a body may store many values before it
comes to a division by zero. Where values are kept apart, bodies are followed on copies, and
conditions and values are expressions, which store nothing. So a statement that is refused has not
yet changed the table, and the check of a row ends with the table that the statements before it have
made.
-/

namespace Primer

open Progress Node

namespace Node

/-- A declaration, an assignment, a return, a decision or a loop, with nothing but expressions in
its condition or its value. Its bodies may be anything. -/
structure HeadSorted (n : Tree) : Prop where
  statement : n.isStatement
  operands : ∀ e ∈ n.operands, e.isExpression ∧ e.WellSorted

instance : DecidablePred HeadSorted := fun n =>
  decidable_of_iff (n.isStatement ∧ ∀ e ∈ n.operands, e.isExpression ∧ e.WellSorted)
    ⟨fun h => ⟨h.1, h.2⟩, fun h => ⟨h.1, h.2⟩⟩

end Node

namespace KnownValues

variable {apart : Bool} {known left : Known} {fault : ZeroDivision} {e n t : Tree}

/-- An expression stores nothing, whether it is refused or not. -/
lemma state_expression (apart : Bool) (h : e.WellSorted) (he : e.isExpression) :
    ∀ known, (check apart known e).state = known := by
  induction e using Node.induction with
  | literal v loc | name x loc => exact fun _ => rfl
  | binary op l r loc hl hr =>
    intro known
    have hleft := hl (h.child (by simp [children])) (h.operand (by simp [operands])) known
    have hright := hr (h.child (by simp [children])) (h.operand (by simp [operands])) known
    rw [check]
    cases zeroDivision? known op r loc with
    | some fault => rfl
    | none =>
      cases hcheck : check apart known l with
      | stopped fault s => rwa [hcheck] at hleft
      | finished s =>
        obtain rfl : s = known := by rwa [hcheck] at hleft
        exact hright
  | _ => cases he

/-- Behind an expression, only what follows it can have changed the table. -/
lemma left_of_andThen {next : Known → Outcome} (he : e.isExpression ∧ e.WellSorted)
    (hnext : next known = .stopped fault left → left = known)
    (h : (check apart known e).andThen next = .stopped fault left) : left = known := by
  have hstate := state_expression apart he.2 he.1 known
  cases hcheck : check apart known e with
  | stopped fault' s =>
    rw [hcheck] at h hstate
    exact (Progress.stopped.inj h).2.symm.trans hstate
  | finished s =>
    rw [hcheck] at h hstate
    obtain rfl : s = known := hstate
    exact hnext h

/-- A way that is refused was followed on a copy. -/
lemma left_of_joinBranches {yes : Outcome} {no : Known → Outcome}
    (h : joinBranches true known yes no = .stopped fault left) : left = known := by
  unfold joinBranches at h
  rw [if_pos rfl] at h
  split at h
  · exact (Progress.stopped.inj h).2.symm
  · exact (Progress.stopped.inj h).2.symm
  · cases h

lemma left_of_joinLoop {once : Outcome} (h : joinLoop true known once = .stopped fault left) :
    left = known := by
  cases once with
  | finished k => cases h
  | stopped fault' k => exact (Progress.stopped.inj h).2.symm

/-- **Step**: a statement that is refused leaves the table as it was. -/
lemma left_of_statement (hn : n.HeadSorted) (h : check true known n = .stopped fault left) :
    left = known := by
  obtain ⟨hstatement, hoperands⟩ := hn
  cases n with
  | declare type x v loc =>
    cases v with
    | none => cases h
    | some v =>
      rw [check] at h
      exact left_of_andThen (hoperands v (by simp [operands])) (by simp) h
  | assign x v loc =>
    rw [check] at h
    exact left_of_andThen (hoperands v (by simp [operands])) (by simp) h
  | branch c b e loc =>
    have hcond := hoperands c (by simp [operands])
    cases e with
    | none =>
      rw [check] at h
      exact left_of_andThen hcond left_of_joinBranches h
    | some e =>
      rw [check] at h
      exact left_of_andThen hcond left_of_joinBranches h
  | whileLoop c b loc =>
    rw [check] at h
    exact left_of_andThen (hoperands c (by simp [operands])) left_of_joinLoop h
  | forLoop b loc =>
    rw [check] at h
    exact left_of_joinLoop h
  | ret v loc =>
    cases v with
    | none => cases h
    | some v =>
      obtain ⟨hexpression, hsorted⟩ := hoperands v (by simp [operands])
      have hstate := state_expression true hsorted hexpression known
      rw [check] at h
      rwa [h] at hstate
  | _ => cases hstatement

lemma check_row (ht : t.isRow) (apart : Bool) (known : Known) :
    check apart known t = each (check apart) known t.children := by
  cases t with
  | block ns loc | program ns loc => rw [check, checkAll_eq, children]
  | _ => cases ht

/-- **No trace**: where values are kept apart, the check of a program or a block stops with a fault
exactly if it comes to a statement that has this fault, and the table that it leaves is the one,
with all entries in their order, that the check of the statements before this one ends with. -/
theorem stopped_iff_untraced (ht : t.isRow) (hstatements : ∀ n ∈ t.children, n.HeadSorted)
    (known left : Known) (fault : ZeroDivision) :
    check true known t = .stopped fault left ↔ ∃ k n, t.children[k]? = some n ∧
      check true known (.program (t.children.take k) none) = .finished left ∧
      (check true left n).fault? = some fault := by
  rw [check_row ht, each_eq_stopped_iff]
  refine exists₂_congr fun k n => ?_
  rw [check, checkAll_eq, fault?_eq_some_iff]
  constructor
  · rintro ⟨reached, hn, hbefore, hstopped⟩
    obtain rfl := left_of_statement (hstatements n (List.mem_of_getElem? hn)) hstopped
    exact ⟨hn, hbefore, left, hstopped⟩
  · rintro ⟨hn, hbefore, s, hstopped⟩
    obtain rfl := left_of_statement (hstatements n (List.mem_of_getElem? hn)) hstopped
    exact ⟨s, hn, hbefore, hstopped⟩

def lateQuotient : Tree :=
  .block [.declare "int" "x" (some (.literal (.int 0) none)) none,
    .assign "y" (.name "x" none) none,
    .branch (.binary "<" (.name "x" none) (.literal (.int 5) none) none)
      (.assign "x" (.literal (.int 3) none) none)
      (some (.block [.assign "y" (.literal (.int 7) none) none,
        .declare "int" "z" (some (.literal (.int 0) none)) none,
        .whileLoop (.binary "%" (.name "y" none) (.name "z" none) none) (.ret none none) none]
        none)) none,
    .assign "x" (.literal (.int 9) none) none] none

theorem lateQuotient_untraced :
    (lateQuotient.isRow ∧ ∀ n ∈ lateQuotient.children, n.HeadSorted) ∧
    check true [("w", .int 4)] (.program (lateQuotient.children.take 2) none) =
      .finished [("w", .int 4), ("x", .int 0), ("y", .int 0)] ∧
    check true [("w", .int 4)] lateQuotient = .stopped (.tracked "z" "%" none)
      [("w", .int 4), ("x", .int 0), ("y", .int 0)] := by
  have hstatements : ∀ n ∈ lateQuotient.children, n.HeadSorted := by decide
  have hbefore : check true [("w", .int 4)] (.program (lateQuotient.children.take 2) none) =
      .finished [("w", .int 4), ("x", .int 0), ("y", .int 0)] := rfl
  exact ⟨⟨rfl, hstatements⟩, hbefore,
    (stopped_iff_untraced rfl hstatements _ _ _).2 ⟨2, _, rfl, hbefore, rfl⟩⟩

/-- With one table for all ways, what a refused statement has stored stays. -/
example (apart : Bool) : (check apart [] (.block [.forLoop (.block
    [.assign "y" (.literal (.int 0) none) none,
      .ret (some (.binary "/" (.literal (.int 1) none) (.name "y" none) none)) none] none) none]
    none)).state = if apart then [] else [("y", .int 0)] := by
  cases apart <;> rfl

end KnownValues

end Primer
