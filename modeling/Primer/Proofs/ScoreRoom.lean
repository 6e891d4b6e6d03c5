import Mathlib.Tactic
import Primer.Proofs.TreeShape
import Primer.View.Score

/-!
The calls that a score takes.

A tree is scored by calls inside one another, and how many there are depends on the tree alone. On a
machine with room for them the score is what it is; on any other there is none. No level of a tree
takes more than five of them.
-/

namespace Primer

lemma roomInside_eq (calls room : ℕ) : roomInside calls room =
    if calls ≤ room then .ok (room - calls) else .error .overflow := by
  unfold roomInside
  split_ifs with h h' h'
  · omega
  · rfl
  · rfl
  · omega

namespace Node

mutual

/-- The calls inside one another that the score of a tree takes. -/
def scoreCalls : Tree → ℕ
  | .branch _ b none _ => b.scoreCalls + 2
  | .branch _ b (some e) _ => max b.scoreCalls e.scoreCalls + 2
  | .whileLoop _ b _ => b.scoreCalls + 2
  | .forLoop b _ => b.scoreCalls + 2
  | .block ns _ => scoreCallsAll ns + 5
  | .program ns _ => scoreCallsAll ns + 5
  | _ => 4

def scoreCallsAll : List Tree → ℕ
  | [] => 0
  | n :: ns => max n.scoreCalls (scoreCallsAll ns)

end

variable {room : ℕ} {depth : ℤ}

/-- Calls around a part that takes `inner` of them. -/
lemma bind_roomInside {α : Type} {f : ℕ → Except Overflow α} {calls inner : ℕ} {a : α}
    (h : ∀ room, f room = if inner ≤ room then .ok a else .error .overflow) :
    (roomInside calls room >>= f) = if inner + calls ≤ room then .ok a else .error .overflow := by
  rw [roomInside_eq]
  split_ifs with hcalls hinner hinner
  · exact (h _).trans (if_pos (by omega))
  · exact (h _).trans (if_neg (by omega))
  · omega
  · rfl

lemma scoreAllWithin_eq {ns : List Tree} (h : ∀ n ∈ ns, ∀ room depth, n.scoreWithin room depth =
      if n.scoreCalls ≤ room then .ok (n.scoreAt depth) else .error .overflow) :
    ∀ room, scoreAllWithin room depth ns =
      if scoreCallsAll ns ≤ room then .ok (scoreAll depth ns) else .error .overflow := by
  intro room
  induction ns with
  | nil => simp [scoreAllWithin, scoreCallsAll, scoreAll, pure, Except.pure]
  | cons n ns ih =>
    obtain ⟨hn, hns⟩ := List.forall_mem_cons.1 h
    rw [scoreAllWithin, scoreCallsAll, scoreAll, hn, ih hns]
    by_cases hfirst : n.scoreCalls ≤ room <;> by_cases hrest : scoreCallsAll ns ≤ room <;>
      simp [hfirst, hrest, bind, Except.bind, pure, Except.pure]

/-- **The score**: it is found exactly if there is room for its calls. -/
theorem scoreWithin_eq (t : Tree) (room : ℕ) (depth : ℤ) : t.scoreWithin room depth =
    if t.scoreCalls ≤ room then .ok (t.scoreAt depth) else .error .overflow := by
  induction t using Node.induction generalizing room depth with
  | branch c b e loc hc hb he =>
    cases e with
    | none =>
      rw [scoreWithin, scoreCalls, scoreAt]
      refine bind_roomInside fun room => ?_
      rw [hb]
      split_ifs <;> rfl
    | some e =>
      rw [scoreWithin, scoreCalls, scoreAt]
      refine bind_roomInside fun room => ?_
      rw [hb, he e rfl]
      by_cases hbody : b.scoreCalls ≤ room <;> by_cases helse : e.scoreCalls ≤ room <;>
        simp [hbody, helse, bind, Except.bind, pure, Except.pure]
  | whileLoop c b loc hc hb =>
    rw [scoreWithin, scoreCalls, scoreAt]
    refine bind_roomInside fun room => ?_
    rw [hb]
    split_ifs <;> rfl
  | forLoop b loc hb =>
    rw [scoreWithin, scoreCalls, scoreAt]
    refine bind_roomInside fun room => ?_
    rw [hb]
    split_ifs <;> rfl
  | block ns loc ih =>
    rw [scoreWithin, scoreCalls, scoreAt]
    exact bind_roomInside (scoreAllWithin_eq ih)
  | program ns loc ih =>
    rw [scoreWithin, scoreCalls, scoreAt]
    exact bind_roomInside (scoreAllWithin_eq ih)
  | _ => exact @bind_roomInside room _ _ 4 0 _ fun room => (if_pos (Nat.zero_le room)).symm

lemma scoreCardWithin_eq (t : Tree) (room : ℕ) : t.scoreCardWithin room =
    if t.scoreCalls ≤ room then .ok t.scoreCard else .error .overflow := by
  rw [scoreCardWithin, scoreWithin_eq]
  split_ifs <;> rfl

lemma scoreCalls_bare (t : Tree) : t.bare.scoreCalls = t.scoreCalls := by
  have all {ns : List Tree} (ih : ∀ n ∈ ns, n.bare.scoreCalls = n.scoreCalls) :
      scoreCallsAll (bareAll ns) = scoreCallsAll ns := by
    induction ns with
    | nil => rfl
    | cons n ns ihs =>
      rw [bareAll, scoreCallsAll, scoreCallsAll, ih n (by simp),
        ihs fun m hm => ih m (by simp [hm])]
  induction t using Node.induction with
  | declare t x v => cases v <;> rfl
  | branch c b e loc hc hb he => cases e <;> simp [bare, scoreCalls, hb, he]
  | whileLoop c b loc hc hb => simp [bare, scoreCalls, hb]
  | forLoop b loc hb => simp [bare, scoreCalls, hb]
  | ret v => cases v <;> rfl
  | block ns loc ih => simp [bare, scoreCalls, all ih]
  | program ns loc ih => simp [bare, scoreCalls, all ih]
  | _ => rfl

end Node

end Primer
