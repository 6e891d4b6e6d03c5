import Mathlib.Tactic
import Primer.Proofs.TreeShape

/-!
The nodes of a tree by their addresses.

An address leads from the root down to a node: each number in it picks a child. The walk of a tree
meets the nodes in the lexicographic order of their addresses, so "before" in the walk is `<` on
addresses, and a node contains another one if its address is the beginning of the other's.
-/

namespace Primer.Node

variable {α : Type} {m n c : Node α} {i : ℕ} {p : List ℕ}

def at? (n : Node α) : List ℕ → Option (Node α)
  | [] => some n
  | i :: p => n.children[i]?.bind fun c => c.at? p

@[simp] lemma at?_nil (n : Node α) : n.at? [] = some n := rfl

lemma at?_cons (n : Node α) (i : ℕ) (p : List ℕ) :
    n.at? (i :: p) = n.children[i]?.bind fun c => c.at? p := rfl

lemma at?_child (hc : n.children[i]? = some c) (p : List ℕ) : n.at? (i :: p) = c.at? p := by
  rw [at?_cons, hc, Option.bind_some]

lemma child_of_at? (h : n.at? (i :: p) = some m) :
    ∃ c, n.children[i]? = some c ∧ c.at? p = some m :=
  Option.bind_eq_some_iff.1 h

def addresses (n : Node α) : List (List ℕ) :=
  [] :: n.children.attach.zipIdx.flatMap fun c => c.1.1.addresses.map (c.2 :: ·)
termination_by n.height
decreasing_by exact height_lt_of_mem_children c.1.2

lemma addresses_eq (n : Node α) :
    n.addresses = [] :: n.children.zipIdx.flatMap fun c => c.1.addresses.map (c.2 :: ·) := by
  have hattach : n.children.zipIdx =
      n.children.attach.zipIdx.map fun c => (c.1.1, c.2) := by
    conv_lhs => rw [← List.attach_map_subtype_val n.children]
    rw [List.zipIdx_map]
    rfl
  rw [addresses, hattach, List.flatMap_map]

lemma mem_addresses (n : Node α) (p : List ℕ) : p ∈ n.addresses ↔ (n.at? p).isSome := by
  induction n using childInduction generalizing p with
  | step n ih =>
    rw [addresses_eq, List.mem_cons, List.mem_flatMap]
    cases p with
    | nil => simp
    | cons i p =>
      simp only [List.mem_map, List.cons.injEq, reduceCtorEq, false_or]
      constructor
      · rintro ⟨⟨c, j⟩, hc, q, hq, rfl, rfl⟩
        have hchild : n.children[j]? = some c := List.mem_zipIdx_iff_getElem?.1 hc
        rw [at?_child hchild]
        exact (ih c (List.mem_of_getElem? hchild) q).1 hq
      · intro h
        obtain ⟨m, hm⟩ := Option.isSome_iff_exists.1 h
        obtain ⟨c, hchild, hm⟩ := child_of_at? hm
        refine ⟨(c, i), List.mem_zipIdx_iff_getElem?.2 hchild, p, ?_, rfl, rfl⟩
        exact (ih c (List.mem_of_getElem? hchild) p).2 (by simp [hm])

/-- **Walks go by address**: the addresses in order lead to the nodes of the walk. -/
lemma map_at?_addresses (n : Node α) : n.addresses.map n.at? = n.walk.map some := by
  induction n using childInduction with
  | step n ih =>
    rw [addresses_eq, walk_eq, List.map_cons, List.map_cons, at?_nil, List.map_flatMap,
      List.map_flatMap]
    congr 1
    have hstep : ∀ c ∈ n.children.zipIdx,
        (c.1.addresses.map (c.2 :: ·)).map n.at? = c.1.walk.map some := by
      rintro ⟨c, i⟩ hc
      have hchild : n.children[i]? = some c := List.mem_zipIdx_iff_getElem?.1 hc
      rw [List.map_map, ← ih c (List.mem_of_getElem? hchild)]
      exact List.map_congr_left fun p _ => at?_child hchild p
    rw [List.flatMap_congr hstep]
    conv_rhs => rw [← List.zipIdx_map_fst 0 n.children, List.flatMap_map]

lemma pairwise_addresses (n : Node α) : n.addresses.Pairwise (· < ·) := by
  induction n using childInduction with
  | step n ih =>
    rw [addresses_eq, List.pairwise_cons]
    constructor
    · intro p hp
      obtain ⟨c, -, hp⟩ := List.mem_flatMap.1 hp
      obtain ⟨q, -, rfl⟩ := List.mem_map.1 hp
      exact List.nil_lt_cons _ _
    · rw [List.pairwise_flatMap]
      constructor
      · rintro ⟨c, i⟩ hc
        have hchild : n.children[i]? = some c := List.mem_zipIdx_iff_getElem?.1 hc
        rw [List.pairwise_map]
        exact (ih c (List.mem_of_getElem? hchild)).imp fun h => List.cons_lt_cons_self.2 h
      · have hindex : n.children.zipIdx.Pairwise fun c d => c.2 < d.2 := by
          rw [← List.pairwise_map (f := Prod.snd) (R := (· < ·)), List.zipIdx_map_snd]
          exact List.pairwise_lt_range'
        refine hindex.imp fun hij p hp q hq => ?_
        obtain ⟨p, -, rfl⟩ := List.mem_map.1 hp
        obtain ⟨q, -, rfl⟩ := List.mem_map.1 hq
        exact List.cons_lt_cons_iff.2 (Or.inl hij)

end Primer.Node
