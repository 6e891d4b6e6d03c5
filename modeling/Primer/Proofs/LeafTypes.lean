import Mathlib.Tactic
import Primer.Check.Typing
import Primer.Proofs.Addresses

/-!
The type of an expression, read off its leaves.

The rule for an operation looks at the types of its two sides, and these come from operations in
turn. Only comparisons stop this: they are of type `bool` whatever stands in them. So the parts that
matter are those that are reached without passing through a comparison, and of these only two things
count: whether one of them is `float`, and what the leftmost one is.
-/

namespace Primer

namespace Node

def combines : Tree → Bool
  | .binary op _ _ _ => !comparisonOperators.contains op
  | _ => false

/-- The parts of an expression that are reached through operations other than comparisons, from left
to right. A comparison is one part. -/
def leaves : Tree → List Tree
  | .binary op l r loc =>
    if comparisonOperators.contains op then [.binary op l r loc] else l.leaves ++ r.leaves
  | e => [e]

/-- An address of a leaf: every node above it combines its sides, and the node there does not. -/
structure IsLeafAt (e : Tree) (u : List ℕ) : Prop where
  stops : ∃ n, e.at? u = some n ∧ n.combines = false
  passes : ∀ v, v <+: u → v ≠ u → ∃ n, e.at? v = some n ∧ n.combines

variable {e l r : Tree} {op : String} {loc : Option Span} {u : List ℕ} {i : ℕ}

lemma leaves_of_not_combines (h : e.combines = false) : e.leaves = [e] := by
  cases e with
  | binary op l r loc => rw [leaves, if_pos (by simpa [combines] using h)]
  | _ => rfl

lemma leaves_of_combines (h : (binary op l r loc).combines) :
    (binary op l r loc).leaves = l.leaves ++ r.leaves := by
  rw [leaves, if_neg (by simpa [combines] using h)]

lemma leaves_ne_nil (e : Tree) : e.leaves ≠ [] := by
  induction e using Node.induction with
  | binary op l r loc hl hr =>
    rw [leaves]
    split
    · exact List.cons_ne_nil _ _
    · exact List.append_ne_nil_of_left_ne_nil hl _
  | _ => exact List.cons_ne_nil _ _

lemma isLeafAt_nil : e.IsLeafAt [] ↔ e.combines = false := by
  constructor
  · rintro ⟨⟨n, hn, hstops⟩, -⟩
    rwa [Option.some.inj hn]
  · intro h
    refine ⟨⟨e, rfl, h⟩, fun v hv hne => ?_⟩
    exact absurd (List.prefix_nil.1 hv) hne

/-- A leaf of a side is one of an operation that combines its sides. -/
lemma isLeafAt_cons {c : Tree} (hc : e.children[i]? = some c) :
    e.IsLeafAt (i :: u) ↔ e.combines ∧ c.IsLeafAt u := by
  constructor
  · rintro ⟨hstops, hpasses⟩
    obtain ⟨n, hn, hcombines⟩ := hpasses [] List.nil_prefix (by simp)
    obtain rfl := Option.some.inj hn
    refine ⟨hcombines, by rwa [at?_child hc] at hstops, fun v hv hne => ?_⟩
    have habove := hpasses (i :: v) (by simpa using hv) (by simpa using hne)
    rwa [at?_child hc] at habove
  · rintro ⟨hcombines, hstops, hpasses⟩
    refine ⟨by rwa [at?_child hc], fun v hv hne => ?_⟩
    cases v with
    | nil => exact ⟨e, rfl, hcombines⟩
    | cons j v =>
      obtain ⟨rfl, hvu⟩ := List.cons_prefix_cons.1 hv
      rw [at?_child hc]
      exact hpasses v hvu (by simpa using hne)

lemma isLeafAt_of_not_combines (h : e.combines = false) : e.IsLeafAt u ↔ u = [] := by
  constructor
  · rintro ⟨-, hpasses⟩
    by_contra hne
    obtain ⟨n, hn, hcombines⟩ := hpasses [] List.nil_prefix (Ne.symm hne)
    rw [← Option.some.inj hn, h] at hcombines
    cases hcombines
  · rintro rfl
    exact isLeafAt_nil.2 h

/-- The leaves of an operation that combines its sides are those of its left and its right side. -/
lemma isLeafAt_binary (h : (binary op l r loc).combines) :
    (binary op l r loc).IsLeafAt u ↔
      (∃ v, l.IsLeafAt v ∧ 0 :: v = u) ∨ ∃ v, r.IsLeafAt v ∧ 1 :: v = u := by
  constructor
  · intro hu
    cases u with
    | nil => simp [isLeafAt_nil.1 hu] at h
    | cons i v =>
      obtain ⟨⟨n, hn, -⟩, -⟩ := id hu
      obtain ⟨c, hc, -⟩ := child_of_at? hn
      have hv := ((isLeafAt_cons hc).1 hu).2
      rcases i with _ | _ | i
      · obtain rfl := Option.some.inj hc
        exact .inl ⟨v, hv, rfl⟩
      · obtain rfl := Option.some.inj hc
        exact .inr ⟨v, hv, rfl⟩
      · simp [children] at hc
  · rintro (⟨v, hv, rfl⟩ | ⟨v, hv, rfl⟩)
    · exact (isLeafAt_cons rfl).2 ⟨h, hv⟩
    · exact (isLeafAt_cons rfl).2 ⟨h, hv⟩

/-- The leaves stand at these addresses, which are those of all leaves in the order of the walk. -/
structure LeafAddresses (e : Tree) (us : List (List ℕ)) : Prop where
  nodes : us.map e.at? = e.leaves.map some
  sorted : us.Pairwise (· < ·)
  mem_iff : ∀ u, u ∈ us ↔ e.IsLeafAt u

lemma leafAddresses_single (h : e.combines = false) : LeafAddresses e [[]] where
  nodes := by
    rw [leaves_of_not_combines h]
    rfl
  sorted := List.pairwise_singleton _ _
  mem_iff u := by rw [List.mem_singleton, isLeafAt_of_not_combines h]

lemma LeafAddresses.binary {us vs : List (List ℕ)} (h : (binary op l r loc).combines)
    (hl : LeafAddresses l us) (hr : LeafAddresses r vs) :
    LeafAddresses (.binary op l r loc) (us.map (0 :: ·) ++ vs.map (1 :: ·)) where
  nodes := by
    rw [leaves_of_combines h, List.map_append, List.map_append, List.map_map, List.map_map,
      ← hl.nodes, ← hr.nodes]
    rfl
  sorted := by
    rw [List.pairwise_append, List.pairwise_map, List.pairwise_map]
    refine ⟨hl.sorted.imp List.cons_lt_cons_self.2, hr.sorted.imp List.cons_lt_cons_self.2, ?_⟩
    intro u hu v hv
    obtain ⟨u, -, rfl⟩ := List.mem_map.1 hu
    obtain ⟨v, -, rfl⟩ := List.mem_map.1 hv
    exact List.cons_lt_cons_iff.2 (.inl Nat.zero_lt_one)
  mem_iff u := by
    simp only [isLeafAt_binary h, List.mem_append, List.mem_map, hl.mem_iff, hr.mem_iff]

/-- **Leaves by address**: every expression has addresses for its leaves. -/
lemma exists_leafAddresses (e : Tree) : ∃ us, LeafAddresses e us := by
  induction e using Node.induction with
  | binary op l r loc hl hr =>
    cases hcombines : (binary op l r loc).combines with
    | false => exact ⟨_, leafAddresses_single hcombines⟩
    | true =>
      obtain ⟨us, hus⟩ := hl
      obtain ⟨vs, hvs⟩ := hr
      exact ⟨_, hus.binary hcombines hvs⟩
  | _ => exact ⟨_, leafAddresses_single rfl⟩

end Node

open Node

namespace Typing

/-- The type of a part that is taken as a whole: comparisons are `bool`, and what is no expression
has no type. -/
def leafType (table : SymbolTable) : Tree → String
  | .literal v _ => v.type
  | .name x _ => nameType table x
  | .binary .. => "bool"
  | _ => unknownType

def leadingType (types : List String) : String :=
  if "float" ∈ types then "float" else types.headD unknownType

lemma leadingType_singleton (type : String) : leadingType [type] = type := by
  simp only [leadingType, List.mem_singleton, List.headD_cons]
  split
  · assumption
  · rfl

lemma leadingType_eq_float {types : List String} :
    leadingType types = "float" ↔ "float" ∈ types := by
  unfold leadingType
  split
  · rename_i h
    exact iff_of_true rfl h
  · rename_i h
    refine iff_of_false ?_ h
    cases types with
    | nil => decide
    | cons type types =>
      rintro rfl
      exact h List.mem_cons_self

/-- Joining the parts of two sides follows the rule of operations. -/
lemma leadingType_append {left right : List String} (h : left ≠ []) :
    leadingType (left ++ right) =
      if leadingType left = "float" ∨ leadingType right = "float" then "float"
      else leadingType left := by
  simp only [leadingType_eq_float]
  split
  · rename_i hfloat
    exact leadingType_eq_float.2 (List.mem_append.2 hfloat)
  · rename_i hfloat
    obtain ⟨first, rest, rfl⟩ := List.exists_cons_of_ne_nil h
    rw [leadingType, leadingType, if_neg (by rwa [List.mem_append]), if_neg (by tauto)]
    rfl

/-- The type of an expression is what the types of its leaves amount to. -/
lemma infer_eq_leadingType (table : SymbolTable) (e : Tree) :
    infer false table e = .ok (leadingType (e.leaves.map (leafType table))) := by
  induction e using Node.induction with
  | binary op l r loc hl hr =>
    have hinfer : infer false table (.binary op l r loc) = .ok (operationType op
        (leadingType (l.leaves.map (leafType table)))
        (leadingType (r.leaves.map (leafType table)))) := by
      simp [infer, hl, hr, bind, Except.bind, pure, Except.pure]
    rw [hinfer, operationType, leaves]
    split
    · rw [List.map_singleton, leadingType_singleton]
      rfl
    · rw [List.map_append, leadingType_append (by simpa using leaves_ne_nil l)]
  | _ => exact congrArg Except.ok (leadingType_singleton _).symm

/-- **Types from leaves**: without strict mode an expression is `float` if one of its leaves is, and
otherwise it has the type of its leftmost leaf. The leaves are the parts at those addresses that are
reached through operations other than comparisons, in the order of the walk. -/
theorem infer_eq_leaves (table : SymbolTable) (e : Tree) :
    (∃ us, LeafAddresses e us) ∧
    ∃ leftmost others, e.leaves = leftmost :: others ∧
      infer false table e = .ok (if "float" ∈ e.leaves.map (leafType table) then "float"
        else leafType table leftmost) := by
  refine ⟨exists_leafAddresses e, ?_⟩
  obtain ⟨leftmost, others, hleaves⟩ := List.exists_cons_of_ne_nil (leaves_ne_nil e)
  refine ⟨leftmost, others, hleaves, ?_⟩
  rw [infer_eq_leadingType, leadingType, hleaves]
  rfl

/-- A `float` inside a comparison does not count. -/
example : infer false .empty (.binary "-"
    (.binary "<" (.name "x" none) (.literal (.float (.zero false)) none) none)
    (.binary "*" (.literal (.int 2) none) (.literal (.text "a") none) none) none) = .ok "bool" :=
  rfl

end Typing

end Primer
