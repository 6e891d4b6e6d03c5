import Mathlib.Tactic
import Primer.Proofs.FlowShape

/-!
Graphs of several programs, laid one behind the other.

The piece of a tree does not depend on where its numbers start: if the first number and the point
that control enters from are moved together, all numbers of the piece move with them. So the graph
of a program that is laid behind others is its own graph with the numbers moved up by the number of
nodes that are there already. The numbers of each program fill an interval, and these intervals do
not overlap.
-/

namespace Primer

/-! ### Moving the numbers -/

def FlowNode.shift (k : ℕ) (n : FlowNode) : FlowNode := { n with id := n.id + k }

def FlowEdge.shift (k : ℕ) (e : FlowEdge) : FlowEdge :=
  { e with source := e.source + k, target := e.target + k }

def Fragment.shift (k : ℕ) (f : Fragment) : Fragment where
  nodes := f.nodes.map (FlowNode.shift k)
  edges := f.edges.map (FlowEdge.shift k)
  leave := f.leave + k

def FlowGraph.shift (k : ℕ) (g : FlowGraph) : FlowGraph where
  nodes := g.nodes.map (FlowNode.shift k)
  edges := g.edges.map (FlowEdge.shift k)
  start := g.start + k
  stop := g.stop + k

namespace Node

variable {next previous k : ℕ} {loc : Option Span} {f g : Fragment}

lemma shift_andThen (k : ℕ) (f g : Fragment) :
    (f.andThen g).shift k = (f.shift k).andThen (g.shift k) := by
  simp [Fragment.andThen, Fragment.shift]

lemma shift_decision (k : ℕ) (loc : Option Span) (f g : Fragment) :
    (decision next previous loc f g).shift k =
      decision (next + k) (previous + k) loc (f.shift k) (g.shift k) := by
  have hmerge : next + k + 1 + f.nodes.length + g.nodes.length =
      next + 1 + f.nodes.length + g.nodes.length + k := by omega
  simp [decision, Fragment.shift, FlowNode.shift, FlowEdge.shift, hmerge]

lemma shift_loop (k : ℕ) (loc : Option Span) (header footer : String × String) (f : Fragment) :
    (loop next previous loc header footer f).shift k =
      loop (next + k) (previous + k) loc header footer (f.shift k) := by
  have hafter : next + k + 1 + f.nodes.length = next + 1 + f.nodes.length + k := by omega
  simp [loop, Fragment.shift, FlowNode.shift, FlowEdge.shift, hafter]

lemma length_nodes_shift (k : ℕ) (f : Fragment) : (f.shift k).nodes.length = f.nodes.length :=
  List.length_map _

lemma flowAll_shift {ns : List Tree} (k : ℕ) (ih : ∀ n ∈ ns, ∀ next previous,
      flow (next + k) (previous + k) n = (flow next previous n).shift k) :
    ∀ next previous, flowAll (next + k) (previous + k) ns = (flowAll next previous ns).shift k := by
  induction ns with
  | nil => exact fun _ _ => rfl
  | cons n ns ihs =>
    intro next previous
    have hrest := ihs fun m hm => ih m (by simp [hm])
    rw [flowAll, flowAll, shift_andThen, ih n (by simp), length_nodes_shift, Nat.add_right_comm,
      ← hrest]
    rfl

/-- **Equivariance**: the numbers of a piece move with the number it starts at and the point that
control enters it from. -/
lemma flow_shift (k : ℕ) (t : Tree) : ∀ next previous,
    flow (next + k) (previous + k) t = (flow next previous t).shift k := by
  induction t using Node.induction with
  | literal | name | binary | declare | assign | ret => exact fun _ _ => rfl
  | branch c b e loc ihc ihb ihe =>
    intro next previous
    have hbody : b.flow (next + k + 1) (next + k) = (b.flow (next + 1) next).shift k := by
      rw [Nat.add_right_comm, ihb]
    rcases e with _ | e
    · rw [flow, flow, shift_decision, hbody]
      rfl
    · have helse : e.flow (next + k + 1 + (b.flow (next + 1) next).nodes.length) (next + k) =
          (e.flow (next + 1 + (b.flow (next + 1) next).nodes.length) next).shift k := by
        rw [← ihe e rfl]
        congr 1
        omega
      rw [flow, flow, shift_decision, hbody, length_nodes_shift, helse]
  | whileLoop c b loc ihc ihb =>
    intro next previous
    rw [flow, flow, shift_loop, Nat.add_right_comm, ihb]
  | forLoop b loc ihb =>
    intro next previous
    rw [flow, flow, shift_loop, Nat.add_right_comm, ihb]
  | block ns loc ih | program ns loc ih => exact flowAll_shift k ih

end Node

namespace FlowGraph

variable {ts : List Tree} {t u : Tree} {i j x : ℕ} {e : FlowEdge}

/-! ### One program more -/

/-- A program that is laid behind others has its own graph, moved up by the nodes that are there. -/
lemma extend_eq (g : FlowGraph) (t : Tree) :
    g.extend t =
      { nodes := g.nodes ++ ((ofTree t).shift g.nodes.length).nodes
        edges := g.edges ++ ((ofTree t).shift g.nodes.length).edges
        start := ((ofTree t).shift g.nodes.length).start
        stop := ((ofTree t).shift g.nodes.length).stop } := by
  have hpiece : t.flow (g.nodes.length + 1) g.nodes.length = (t.flow 1 0).shift g.nodes.length := by
    rw [← Node.flow_shift, Nat.add_comm 1, Nat.zero_add]
  have hlast : g.nodes.length + 1 + (t.flow 1 0).nodes.length =
      1 + (t.flow 1 0).nodes.length + g.nodes.length := by omega
  simp only [extend, hpiece, Node.length_nodes_shift, hlast]
  simp [ofTree_eq, shift, Fragment.shift, FlowNode.shift, FlowEdge.shift]

/-! ### All programs -/

/-- The graph that holds the programs of a list, laid one behind the other. -/
def ofTrees (ts : List Tree) : FlowGraph := ts.foldl extend empty

def size (t : Tree) : ℕ := (ofTree t).nodes.length

def offset (ts : List Tree) (i : ℕ) : ℕ := ((ts.take i).map size).sum

lemma ofTrees_snoc (ts : List Tree) (t : Tree) : ofTrees (ts ++ [t]) = (ofTrees ts).extend t := by
  simp [ofTrees]

lemma offset_append (hi : i ≤ ts.length) (us : List Tree) : offset (ts ++ us) i = offset ts i := by
  rw [offset, List.take_append_of_le_length hi, offset]

lemma offset_succ (ht : ts[i]? = some t) : offset ts (i + 1) = offset ts i + size t := by
  simp [offset, List.take_add_one, ht]

lemma offset_mono (ts : List Tree) (hij : i ≤ j) : offset ts i ≤ offset ts j := by
  have hprefix : (ts.take i).map size <+: (ts.take j).map size :=
    (List.take_prefix_take_left hij).map size
  exact hprefix.sublist.sum_le_sum fun _ _ => Nat.zero_le _

lemma length_nodes_ofTrees (ts : List Tree) :
    (ofTrees ts).nodes.length = offset ts ts.length := by
  induction ts using List.reverseRecOn with
  | nil => rfl
  | append_singleton ts t ih =>
    have hlast : (ts ++ [t])[ts.length]? = some t := by simp
    rw [ofTrees_snoc, extend_eq, List.length_append, ih, List.length_append, List.length_singleton,
      offset_succ hlast, offset_append le_rfl]
    simp [shift, size]

/-- Moved graphs of all programs but the last do not depend on the last. -/
lemma flatMap_zipIdx_snoc {β : Type} (part : FlowGraph → List β) (ts : List Tree) (t : Tree) :
    ((ts ++ [t]).zipIdx.flatMap fun p => part ((ofTree p.1).shift (offset (ts ++ [t]) p.2))) =
      (ts.zipIdx.flatMap fun p => part ((ofTree p.1).shift (offset ts p.2))) ++
        part ((ofTree t).shift (offset ts ts.length)) := by
  have hbefore : (ts.zipIdx.flatMap fun p => part ((ofTree p.1).shift (offset (ts ++ [t]) p.2))) =
      ts.zipIdx.flatMap fun p => part ((ofTree p.1).shift (offset ts p.2)) := by
    refine List.flatMap_congr fun p hp => ?_
    rw [offset_append (List.snd_lt_of_mem_zipIdx hp).le]
  rw [List.zipIdx_append, List.flatMap_append, hbefore]
  simp [offset_append]

lemma nodes_ofTrees (ts : List Tree) : (ofTrees ts).nodes =
    ts.zipIdx.flatMap fun p => ((ofTree p.1).shift (offset ts p.2)).nodes := by
  induction ts using List.reverseRecOn with
  | nil => rfl
  | append_singleton ts t ih =>
    rw [ofTrees_snoc, extend_eq, length_nodes_ofTrees, flatMap_zipIdx_snoc FlowGraph.nodes, ih]

lemma edges_ofTrees (ts : List Tree) : (ofTrees ts).edges =
    ts.zipIdx.flatMap fun p => ((ofTree p.1).shift (offset ts p.2)).edges := by
  induction ts using List.reverseRecOn with
  | nil => rfl
  | append_singleton ts t ih =>
    rw [ofTrees_snoc, extend_eq, length_nodes_ofTrees, flatMap_zipIdx_snoc FlowGraph.edges, ih]

/-! ### Intervals of numbers -/

lemma ids_shift (t : Tree) (k : ℕ) :
    ((ofTree t).shift k).nodes.map FlowNode.id = List.range' k (size t) := by
  have hmoved : FlowNode.id ∘ FlowNode.shift k = (k + ·) ∘ FlowNode.id :=
    funext fun n => Nat.add_comm n.id k
  rw [shift, List.map_map, hmoved, ← List.map_map, ofTree_numbered, List.map_add_range', size]
  rfl

lemma mem_ids_shift {k : ℕ} :
    x ∈ ((ofTree t).shift k).nodes.map FlowNode.id ↔ k ≤ x ∧ x < k + size t := by
  rw [ids_shift, List.mem_range'_1]

/-- The nodes have the numbers from zero on. -/
lemma ids_ofTrees (ts : List Tree) :
    (ofTrees ts).nodes.map FlowNode.id = List.range' 0 (offset ts ts.length) := by
  induction ts using List.reverseRecOn with
  | nil => rfl
  | append_singleton ts t ih =>
    have hlast : (ts ++ [t])[ts.length]? = some t := by simp
    rw [ofTrees_snoc, extend_eq, length_nodes_ofTrees, List.map_append, ih, ids_shift,
      List.length_append, List.length_singleton, offset_succ hlast, offset_append le_rfl,
      ← List.range'_append_1, Nat.zero_add]

/-- The intervals of two programs do not overlap. -/
lemma eq_of_mem_intervals (ht : ts[i]? = some t) (hu : ts[j]? = some u)
    (hi : offset ts i ≤ x ∧ x < offset ts i + size t)
    (hj : offset ts j ≤ x ∧ x < offset ts j + size u) : i = j := by
  rw [← offset_succ ht] at hi
  rw [← offset_succ hu] at hj
  rcases Nat.lt_trichotomy i j with hlt | heq | hgt
  · have hle : offset ts (i + 1) ≤ offset ts j := offset_mono ts hlt
    omega
  · exact heq
  · have hle : offset ts (j + 1) ≤ offset ts i := offset_mono ts hgt
    omega

/-- An edge of a graph stays within its numbers. -/
lemma lt_size_of_mem_edges (he : e ∈ (ofTree t).edges) :
    e.source < size t ∧ e.target < size t := by
  have hplaced := Node.flow_placed t 1 0
  have hleave := hplaced.leave
  have hsize : size t = (t.flow 1 0).nodes.length + 2 := by simp [size, ofTree_eq]
  rcases mem_edges_ofTree.1 he with he | rfl
  · have hbounds := hplaced.edges e he
    omega
  · rw [stop_ofTree]
    dsimp only
    omega

/-- Both ends of an edge lie in the interval of one program. -/
lemma interval_of_mem_edges (he : e ∈ (ofTrees ts).edges) : ∃ i t, ts[i]? = some t ∧
    (offset ts i ≤ e.source ∧ e.source < offset ts i + size t) ∧
      offset ts i ≤ e.target ∧ e.target < offset ts i + size t := by
  rw [edges_ofTrees, List.mem_flatMap] at he
  obtain ⟨⟨t, i⟩, hmem, he⟩ := he
  obtain ⟨e', he', rfl⟩ := List.mem_map.1 he
  have hbounds : e'.source < size t ∧ e'.target < size t := lt_size_of_mem_edges he'
  refine ⟨i, t, List.mem_zipIdx_iff_getElem?.1 hmem, ?_⟩
  simp only [FlowEdge.shift]
  omega

/-! ### Side by side -/

/-- A graph holds the graphs of programs side by side, each with its numbers moved up behind those
of the earlier ones. -/
structure SideBySide (ts : List Tree) (g : FlowGraph) : Prop where
  nodes : g.nodes = ts.zipIdx.flatMap fun p => ((ofTree p.1).shift (offset ts p.2)).nodes
  edges : g.edges = ts.zipIdx.flatMap fun p => ((ofTree p.1).shift (offset ts p.2)).edges
  nodup : (g.nodes.map FlowNode.id).Nodup
  /-- Each edge has both ends in one program, and no end in any other. -/
  apart : ∀ e ∈ g.edges, ∃ i < ts.length, ∀ j t, ts[j]? = some t →
    (e.source ∈ ((ofTree t).shift (offset ts j)).nodes.map FlowNode.id ↔ j = i) ∧
      (e.target ∈ ((ofTree t).shift (offset ts j)).nodes.map FlowNode.id ↔ j = i)
  /-- It starts and stops where its last program does. -/
  ends : ∀ t, ts.getLast? = some t →
    g.start = ((ofTree t).shift (offset ts (ts.length - 1))).start ∧
      g.stop = ((ofTree t).shift (offset ts (ts.length - 1))).stop

/-- **Side by side**: programs that are laid one behind the other share neither nodes nor edges, and
each has the graph that it has alone, moved up by the number of nodes before it. -/
theorem ofTrees_sideBySide (ts : List Tree) : SideBySide ts (ofTrees ts) where
  nodes := nodes_ofTrees ts
  edges := edges_ofTrees ts
  nodup := by
    rw [ids_ofTrees]
    exact List.nodup_range'
  apart := by
    intro e he
    obtain ⟨i, t, ht, hsource, htarget⟩ := interval_of_mem_edges he
    refine ⟨i, (List.getElem?_eq_some_iff.1 ht).1, fun j u hu => ?_⟩
    rw [mem_ids_shift, mem_ids_shift]
    refine ⟨⟨fun hj => eq_of_mem_intervals hu ht hj hsource, ?_⟩,
      ⟨fun hj => eq_of_mem_intervals hu ht hj htarget, ?_⟩⟩
    · rintro rfl
      obtain rfl : t = u := Option.some.inj (ht.symm.trans hu)
      exact hsource
    · rintro rfl
      obtain rfl : t = u := Option.some.inj (ht.symm.trans hu)
      exact htarget
  ends := by
    intro t hlast
    obtain ⟨before, rfl⟩ := List.getLast?_eq_some_iff.1 hlast
    have hbehind : offset (before ++ [t]) ((before ++ [t]).length - 1) =
        (ofTrees before).nodes.length := by
      rw [length_nodes_ofTrees, List.length_append, List.length_singleton, Nat.add_sub_cancel,
        offset_append le_rfl]
    rw [ofTrees_snoc, extend_eq, hbehind]
    exact ⟨rfl, rfl⟩

end FlowGraph

end Primer
