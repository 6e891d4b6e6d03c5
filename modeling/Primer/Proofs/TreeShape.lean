import Mathlib.Tactic
import Primer.Proofs.DirectRules
import Primer.Tree.Nesting

/-!
Trees without their places, their height, and the trees that are programs of the language.

The search for a node below a number of levels finds one exactly in the trees of a greater height.
-/

namespace Primer.Node

variable {α : Type}

mutual

/-- The tree with no place recorded. -/
def bare : Node α → Node α
  | .literal v _ => .literal v none
  | .name x _ => .name x none
  | .binary op l r _ => .binary op l.bare r.bare none
  | .declare t x none _ => .declare t x none none
  | .declare t x (some v) _ => .declare t x (some v.bare) none
  | .assign x v _ => .assign x v.bare none
  | .branch c b none _ => .branch c.bare b.bare none none
  | .branch c b (some e) _ => .branch c.bare b.bare (some e.bare) none
  | .whileLoop c b _ => .whileLoop c.bare b.bare none
  | .forLoop b _ => .forLoop b.bare none
  | .ret none _ => .ret none none
  | .ret (some v) _ => .ret (some v.bare) none
  | .block ns _ => .block (bareAll ns) none
  | .program ns _ => .program (bareAll ns) none

def bareAll : List (Node α) → List (Node α)
  | [] => []
  | n :: ns => n.bare :: bareAll ns

end

mutual

def height : Node α → ℕ
  | .literal _ _ => 1
  | .name _ _ => 1
  | .binary _ l r _ => max l.height r.height + 1
  | .declare _ _ none _ => 1
  | .declare _ _ (some v) _ => v.height + 1
  | .assign _ v _ => v.height + 1
  | .branch c b none _ => max c.height b.height + 1
  | .branch c b (some e) _ => max c.height (max b.height e.height) + 1
  | .whileLoop c b _ => max c.height b.height + 1
  | .forLoop b _ => b.height + 1
  | .ret none _ => 1
  | .ret (some v) _ => v.height + 1
  | .block ns _ => heightAll ns + 1
  | .program ns _ => heightAll ns + 1

def heightAll : List (Node α) → ℕ
  | [] => 0
  | n :: ns => max n.height (heightAll ns)

end

lemma heightAll_le_iff {ns : List (Node α)} {k : ℕ} :
    heightAll ns ≤ k ↔ ∀ n ∈ ns, n.height ≤ k := by
  induction ns with
  | nil => simp [heightAll]
  | cons n ns ih => simp [heightAll, ih]

lemma height_le_heightAll {n : Node α} {ns : List (Node α)} (h : n ∈ ns) :
    n.height ≤ heightAll ns :=
  heightAll_le_iff.1 le_rfl n h

lemma height_pos (n : Node α) : 0 < n.height := by
  cases n with
  | declare t x v => cases v <;> simp [height]
  | branch c b e => cases e <;> simp [height]
  | ret v => cases v <;> simp [height]
  | _ => simp [height]

lemma height_lt_of_mem_children {m n : Node α} (h : m ∈ n.children) : m.height < n.height := by
  have all {ns : List (Node α)} (h : m ∈ ns) : m.height < heightAll ns + 1 :=
    Nat.lt_succ_of_le (height_le_heightAll h)
  cases n with
  | literal v | name x => simp [children] at h
  | declare t x v => cases v <;> simp_all [children, height]
  | ret v => cases v <;> simp_all [children, height]
  | assign x v | forLoop b => simp_all [children, height]
  | binary op l r | whileLoop c b =>
    simp only [children, List.mem_cons, List.not_mem_nil, or_false] at h
    rcases h with rfl | rfl <;> rw [height] <;> omega
  | branch c b e =>
    cases e with
    | none =>
      simp only [children, Option.toList_none, List.mem_cons, List.not_mem_nil, or_false] at h
      rcases h with rfl | rfl <;> rw [height] <;> omega
    | some e =>
      simp only [children, Option.toList_some, List.mem_cons, List.not_mem_nil, or_false] at h
      rcases h with rfl | rfl | rfl <;> rw [height] <;> omega
  | block ns | program ns => exact all h

/-- What passes from the children of each tree to the tree holds of all trees. -/
@[elab_as_elim]
lemma childInduction {motive : Node α → Prop}
    (step : ∀ n, (∀ m ∈ n.children, motive m) → motive n) (n : Node α) : motive n := by
  induction hk : n.height using Nat.strong_induction_on generalizing n with
  | _ k ih => exact step n fun m hm => ih m.height (hk ▸ height_lt_of_mem_children hm) m rfl

lemma mem_walk_trans {l m n : Node α} (hl : l ∈ m.walk) (hm : m ∈ n.walk) : l ∈ n.walk := by
  induction n using childInduction with
  | step n ih =>
    rw [walk_eq, List.mem_cons, List.mem_flatMap] at hm
    rcases hm with rfl | ⟨c, hc, hm⟩
    · exact hl
    · rw [walk_eq]
      exact List.mem_cons_of_mem _ (List.mem_flatMap.2 ⟨c, hc, ih c hc hm⟩)

lemma forall_walk_child {P : Node α → Prop} {n c : Node α} (h : ∀ m ∈ n.walk, P m)
    (hc : c ∈ n.children) : ∀ m ∈ c.walk, P m := by
  rw [walk_eq, List.forall_mem_cons, List.forall_mem_flatMap] at h
  exact h.2 c hc

lemma self_of_forall_walk {P : Node α → Prop} {n : Node α} (h : ∀ m ∈ n.walk, P m) : P n := by
  rw [walk_eq, List.forall_mem_cons] at h
  exact h.1

lemma height_le_of_mem_walk {m n : Node α} (h : m ∈ n.walk) : m.height ≤ n.height := by
  induction n using childInduction with
  | step n ih =>
    rw [walk_eq, List.mem_cons, List.mem_flatMap] at h
    rcases h with rfl | ⟨c, hc, hm⟩
    · exact le_rfl
    · exact (ih c hc hm).trans (height_lt_of_mem_children hc).le

lemma height_bare (n : Node α) : n.bare.height = n.height := by
  have all {ns : List (Node α)} (ih : ∀ n ∈ ns, n.bare.height = n.height) :
      heightAll (bareAll ns) = heightAll ns := by
    induction ns with
    | nil => rfl
    | cons n ns ihs =>
      rw [bareAll, heightAll, heightAll, ih n (by simp), ihs fun m hm => ih m (by simp [hm])]
  induction n using Node.induction with
  | literal v => rfl
  | name x => rfl
  | binary op l r loc hl hr => simp [bare, height, hl, hr]
  | declare t x v loc hv => cases v <;> simp [bare, height, hv]
  | assign x v loc hv => simp [bare, height, hv]
  | branch c b e loc hc hb he => cases e <;> simp [bare, height, hc, hb, he]
  | whileLoop c b loc hc hb => simp [bare, height, hc, hb]
  | forLoop b loc hb => simp [bare, height, hb]
  | ret v loc hv => cases v <;> simp [bare, height, hv]
  | block ns loc ih => simp [bare, height, all ih]
  | program ns loc ih => simp [bare, height, all ih]

lemma overflowAll_eq_none_iff {limit depth : ℕ} {near : Option Span} {ns : List (Node α)} :
    overflowAll limit depth near ns = none ↔
      ∀ n ∈ ns, n.overflowFrom limit depth (n.location <|> near) = none := by
  induction ns with
  | nil => simp [overflowAll]
  | cons n ns ih => simp [overflowAll, ih, and_comm]

/-- Nothing is found if the node itself is not too deep and nothing is found below it. -/
lemma found_eq_none_iff {limit depth : ℕ} {near : Option Span} {below : Option (Option Span)} :
    (if limit < depth then some near else below) = none ↔ depth ≤ limit ∧ below = none := by
  split <;> simp <;> omega

lemma overflowFrom_eq_none_iff {limit : ℕ} {n : Node α} :
    ∀ depth near, n.overflowFrom limit depth near = none ↔ depth + n.height ≤ limit + 1 := by
  have all {ns : List (Node α)} (ih : ∀ n ∈ ns, ∀ depth near,
      n.overflowFrom limit depth near = none ↔ depth + n.height ≤ limit + 1)
      (depth : ℕ) (near : Option Span) :
      (if limit < depth then some near else overflowAll limit (depth + 1) near ns) = none ↔
        depth + (heightAll ns + 1) ≤ limit + 1 := by
    have hle : depth + (heightAll ns + 1) ≤ limit + 1 ↔
        depth ≤ limit ∧ heightAll ns ≤ limit - depth := by omega
    rw [hle, heightAll_le_iff, found_eq_none_iff, overflowAll_eq_none_iff]
    refine and_congr_right fun _ => forall₂_congr fun n hn => ?_
    rw [ih n hn]
    omega
  induction n using Node.induction with
  | literal v | name x =>
    intro depth near
    simp only [overflowFrom, height, found_eq_none_iff, and_true]
    omega
  | binary op l r loc hl hr =>
    intro depth near
    simp only [overflowFrom, height, found_eq_none_iff, Option.orElse_eq_none, hl, hr]
    omega
  | declare t x v loc hv =>
    intro depth near
    cases v with
    | none => simp only [overflowFrom, height, found_eq_none_iff, and_true]; omega
    | some v => simp only [overflowFrom, height, found_eq_none_iff, hv v rfl]; omega
  | assign x v loc hv =>
    intro depth near
    simp only [overflowFrom, height, found_eq_none_iff, hv]
    omega
  | branch c b e loc hc hb he =>
    intro depth near
    cases e with
    | none =>
      simp only [overflowFrom, height, found_eq_none_iff, Option.orElse_eq_none, hc, hb]
      omega
    | some e =>
      simp only [overflowFrom, height, found_eq_none_iff, Option.orElse_eq_none, hc, hb, he e rfl]
      omega
  | whileLoop c b loc hc hb =>
    intro depth near
    simp only [overflowFrom, height, found_eq_none_iff, Option.orElse_eq_none, hc, hb]
    omega
  | forLoop b loc hb =>
    intro depth near
    simp only [overflowFrom, height, found_eq_none_iff, hb]
    omega
  | ret v loc hv =>
    intro depth near
    cases v with
    | none => simp only [overflowFrom, height, found_eq_none_iff, and_true]; omega
    | some v => simp only [overflowFrom, height, found_eq_none_iff, hv v rfl]; omega
  | block ns loc ih => exact all ih
  | program ns loc ih => exact all ih

/-- **Nesting**: no node is found below `limit` levels exactly if the tree has no more levels. -/
theorem overflow?_eq_none_iff {limit : ℕ} {n : Node α} :
    n.overflow? limit = none ↔ n.height ≤ limit := by
  rw [overflow?, overflowFrom_eq_none_iff]
  omega

/-! ### The trees that are programs -/

/-- Letters and digits after a letter, and no keyword. -/
def IsName (x : String) : Prop :=
  x ∉ Lexeme.keywords ∧ x.toList.head?.any Lexeme.isLetter ∧ x.toList.all Lexeme.isWordChar

instance : DecidablePred IsName := fun _ => inferInstanceAs (Decidable (_ ∧ _ ∧ _))

/-- Whether a statement ends in a branch that could still take an `else`. -/
def EndsOpen : Tree → Prop
  | .branch _ _ none _ => True
  | .branch _ _ (some e) _ => e.EndsOpen
  | .whileLoop _ b _ => b.EndsOpen
  | _ => False

lemma endsOpen_bare (n : Tree) : n.bare.EndsOpen ↔ n.EndsOpen := by
  induction n using Node.induction with
  | declare t x v => cases v <;> rfl
  | branch c b e loc hc hb he =>
    cases e with
    | none => rfl
    | some e => exact he e rfl
  | whileLoop c b loc hc hb => exact hb
  | ret v => cases v <;> rfl
  | _ => rfl

variable (ok : Literal → Prop)

/-- An expression with the operators of the grammar and with literals that are `ok`. -/
def IsExpression : Tree → Prop
  | .literal v _ => ok v
  | .name x _ => IsName x
  | .binary op l r _ =>
    op ∈ Grammar.comparisonSigns ++ Grammar.additiveSigns ++ Grammar.multiplicativeSigns ∧
      l.IsExpression ∧ r.IsExpression
  | _ => False

mutual

/-- A statement whose expressions have literals that are `ok`. No `else` follows a body that ends
in a branch without one. -/
def IsStatement : Tree → Prop
  | .declare t x none _ => t ∈ Lexeme.typeNames ∧ IsName x
  | .declare t x (some v) _ => t ∈ Lexeme.typeNames ∧ IsName x ∧ v.IsExpression ok
  | .assign x v _ => IsName x ∧ v.IsExpression ok
  | .branch c b none _ => c.IsExpression ok ∧ b.IsStatement
  | .branch c b (some e) _ =>
    c.IsExpression ok ∧ b.IsStatement ∧ ¬ b.EndsOpen ∧ e.IsStatement
  | .whileLoop c b _ => c.IsExpression ok ∧ b.IsStatement
  | .ret none _ => True
  | .ret (some v) _ => v.IsExpression ok
  | .block ns _ => IsStatements ns
  | _ => False

def IsStatements : List Tree → Prop
  | [] => True
  | n :: ns => n.IsStatement ∧ IsStatements ns

end

variable {ok} in
lemma isStatements_iff {ns : List Tree} : IsStatements ok ns ↔ ∀ n ∈ ns, n.IsStatement ok := by
  induction ns with
  | nil => simp [IsStatements]
  | cons n ns ih => simp [IsStatements, ih]

def IsProgram : Tree → Prop
  | .program ns _ => IsStatements ok ns
  | _ => False

/-! ### Other conditions on literals -/

section

variable {ok ok' : Literal → Prop} {n e : Tree}

def LiteralIs (ok : Literal → Prop) (n : Tree) : Prop := ∀ v loc, n = .literal v loc → ok v

lemma IsExpression.imp (h : e.IsExpression ok) (hok : ∀ m ∈ e.walk, m.LiteralIs ok') :
    e.IsExpression ok' := by
  induction e using Node.induction with
  | literal v loc => exact self_of_forall_walk hok v loc rfl
  | name x loc => exact h
  | binary op l r loc hl hr =>
    obtain ⟨hop, hle, hre⟩ := h
    exact ⟨hop, hl hle (forall_walk_child hok (by simp [children])),
      hr hre (forall_walk_child hok (by simp [children]))⟩
  | _ => exact h.elim

lemma IsStatement.imp (h : n.IsStatement ok) (hok : ∀ m ∈ n.walk, m.LiteralIs ok') :
    n.IsStatement ok' := by
  have hchild : ∀ {n c : Tree}, (∀ m ∈ n.walk, m.LiteralIs ok') → c ∈ n.children →
      ∀ m ∈ c.walk, m.LiteralIs ok' := forall_walk_child
  induction n using Node.induction with
  | declare t x v loc _ =>
    cases v with
    | none => exact h
    | some v => exact ⟨h.1, h.2.1, h.2.2.imp (hchild hok (by simp [children]))⟩
  | assign x v loc _ => exact ⟨h.1, h.2.imp (hchild hok (by simp [children]))⟩
  | branch c b e loc _ hb he =>
    have hc := hchild (c := c) hok (by simp [children])
    have hb := fun h => hb h (hchild hok (by simp [children]))
    cases e with
    | none => exact ⟨h.1.imp hc, hb h.2⟩
    | some e =>
      have he := he e rfl h.2.2.2 (hchild hok (by simp [children]))
      exact ⟨h.1.imp hc, hb h.2.1, h.2.2.1, he⟩
  | whileLoop c b loc _ hb =>
    exact ⟨h.1.imp (hchild hok (by simp [children])), hb h.2 (hchild hok (by simp [children]))⟩
  | ret v loc _ =>
    cases v with
    | none => trivial
    | some v => exact IsExpression.imp h (hchild hok (by simp [children]))
  | block ns loc ih =>
    refine isStatements_iff.2 fun n hn => ih n hn (isStatements_iff.1 h n hn) ?_
    exact hchild hok hn
  | _ => exact h.elim

end

end Primer.Node
