import Mathlib.Tactic
import Primer.Proofs.FlowShape

/-!
How many edges leave and reach each point of the graph.

The edges that leave a decision are made at different moments: some by the first statement of a
body, some where the ways meet or the loop closes, and an empty body makes none. So a piece is given
one more edge, from the point where control leaves it. Then the edges that start at each point are
those that the point should have, and one more where control enters. With this account pieces fit
together whether or not they are empty.
-/

namespace Primer

/-! ### Points by the number of their edges -/

namespace FlowNode

def isHeader (n : FlowNode) : Bool := [Node.whileHeader.1, Node.forHeader.1].contains n.label

def forks (n : FlowNode) : Bool := n.label == "if (...)" || n.isHeader

def meets (n : FlowNode) : Bool := n.label == "End If" || n.isHeader

def waysOut (n : FlowNode) : ℕ := if n.forks then 2 else 1

def waysIn (n : FlowNode) : ℕ := if n.meets then 2 else 1

def headers (n : FlowNode) : ℕ := if n.isHeader then 1 else 0

/-- The labels of nodes with more than one way in or out. -/
def junctions : List String := ["if (...)", "End If", Node.whileHeader.1, Node.forHeader.1]

variable {n : FlowNode}

lemma isHeader_eq_false (h : n.label ∉ junctions) : n.isHeader = false := by
  simp only [junctions, List.mem_cons, List.not_mem_nil, or_false, not_or] at h
  simp [isHeader, h]

lemma waysOut_eq_one (h : n.label ∉ junctions) : n.waysOut = 1 := by
  have hheader := isHeader_eq_false h
  simp only [junctions, List.mem_cons, List.not_mem_nil, or_false, not_or] at h
  simp [waysOut, forks, hheader, h]

lemma waysIn_eq_one (h : n.label ∉ junctions) : n.waysIn = 1 := by
  have hheader := isHeader_eq_false h
  simp only [junctions, List.mem_cons, List.not_mem_nil, or_false, not_or] at h
  simp [waysIn, meets, hheader, h]

lemma headers_eq_zero (h : n.label ∉ junctions) : n.headers = 0 := by
  rw [headers, isHeader_eq_false h]
  rfl

lemma stored_not_mem_junctions (s : String) : s ++ " = ..." ∉ junctions :=
  stored_not_mem (by decide) s

end FlowNode

/-! ### Counting -/

def mark (a i : ℕ) : ℕ := if a = i then 1 else 0

/-- What the nodes with the number `i` come to. -/
def tally (weight : FlowNode → ℕ) (ns : List FlowNode) (i : ℕ) : ℕ :=
  (ns.map fun n => weight n * mark n.id i).sum

section

variable {weight : FlowNode → ℕ} {ns : List FlowNode} {n : FlowNode} {i : ℕ}

@[simp] lemma mark_self (a : ℕ) : mark a a = 1 := if_pos rfl

lemma mark_of_ne {a : ℕ} (h : a ≠ i) : mark a i = 0 := if_neg h

@[simp] lemma tally_nil (weight : FlowNode → ℕ) (i : ℕ) : tally weight [] i = 0 := rfl

@[simp] lemma tally_cons (weight : FlowNode → ℕ) (n : FlowNode) (ns : List FlowNode) (i : ℕ) :
    tally weight (n :: ns) i = weight n * mark n.id i + tally weight ns i := by
  simp [tally]

@[simp] lemma tally_append (weight : FlowNode → ℕ) (ns ms : List FlowNode) (i : ℕ) :
    tally weight (ns ++ ms) i = tally weight ns i + tally weight ms i := by
  simp [tally]

lemma tally_eq_zero (h : i ∉ ns.map FlowNode.id) : tally weight ns i = 0 := by
  induction ns with
  | nil => rfl
  | cons n ns ih =>
    simp only [List.map_cons, List.mem_cons, not_or] at h
    rw [tally_cons, ih h.2, mark_of_ne (Ne.symm h.1), Nat.mul_zero]

/-- Where numbers are given once, a node stands for itself alone. -/
lemma tally_eq (hns : (ns.map FlowNode.id).Nodup) (hn : n ∈ ns) :
    tally weight ns n.id = weight n := by
  induction ns with
  | nil => simp at hn
  | cons m ns ih =>
    obtain ⟨hm, hns⟩ := List.nodup_cons.1 hns
    rw [tally_cons]
    rcases List.mem_cons.1 hn with rfl | hn
    · rw [mark_self, tally_eq_zero hm]
      omega
    · have hne : m.id ≠ n.id := fun heq => hm (heq ▸ List.mem_map_of_mem hn)
      rw [mark_of_ne hne, ih hns hn]
      omega

lemma exists_of_tally_pos (h : 0 < tally weight ns i) : ∃ n ∈ ns, n.id = i ∧ 0 < weight n := by
  induction ns with
  | nil => simp at h
  | cons m ns ih =>
    by_cases hm : m.id = i ∧ 0 < weight m
    · exact ⟨m, by simp, hm⟩
    · have hzero : weight m * mark m.id i = 0 := by
        by_cases hid : m.id = i
        · have hweight : weight m = 0 := by
            by_contra hne
            exact hm ⟨hid, Nat.pos_of_ne_zero hne⟩
          rw [hweight, Nat.zero_mul]
        · rw [mark_of_ne hid, Nat.mul_zero]
      rw [tally_cons, hzero, Nat.zero_add] at h
      obtain ⟨n, hn, hid⟩ := ih h
      exact ⟨n, by simp [hn], hid⟩

end

namespace FlowEdge

def begin? (e : FlowEdge) : Option ℕ := some e.source

def end? (e : FlowEdge) : Option ℕ := some e.target

/-- The header of the loop that an edge closes. -/
def closed? (e : FlowEdge) : Option ℕ := if e.label = some loopLabel then some e.target else none

/-- The header of the loop that an edge quits. -/
def quit? (e : FlowEdge) : Option ℕ := if e.label = some exitLabel then some e.source else none

lemma closed?_eq_some {e : FlowEdge} {i : ℕ} :
    e.closed? = some i ↔ e.target = i ∧ e.label = some loopLabel := by
  rw [closed?, Option.ite_none_right_eq_some, Option.some_inj, and_comm]

lemma quit?_eq_some {e : FlowEdge} {i : ℕ} :
    e.quit? = some i ↔ e.source = i ∧ e.label = some exitLabel := by
  rw [quit?, Option.ite_none_right_eq_some, Option.some_inj, and_comm]

/-- How many edges have the place `i`, parallel ones counted. -/
def countAt (place? : FlowEdge → Option ℕ) (es : List FlowEdge) (i : ℕ) : ℕ :=
  es.countP fun e => place? e = some i

section

variable (place? : FlowEdge → Option ℕ) (e : FlowEdge) (es fs : List FlowEdge) (i : ℕ)

@[simp] lemma countAt_nil : countAt place? [] i = 0 := rfl

@[simp] lemma countAt_append :
    countAt place? (es ++ fs) i = countAt place? es i + countAt place? fs i :=
  List.countP_append

@[simp] lemma countAt_cons :
    countAt place? (e :: es) i = (place? e).elim 0 (mark · i) + countAt place? es i := by
  rw [countAt, List.countP_cons, Nat.add_comm]
  cases place? e with
  | none => simp [countAt]
  | some a => simp [countAt, mark]

lemma countAt_pos {place? : FlowEdge → Option ℕ} {e : FlowEdge} {es : List FlowEdge} {i : ℕ}
    (he : e ∈ es) (hi : place? e = some i) : 0 < countAt place? es i :=
  List.countP_pos_iff.2 ⟨e, he, decide_eq_true hi⟩

end

end FlowEdge

/-! ### The account of a piece -/

open FlowEdge FlowNode

/-- Each point of the piece has the edges that it should have, and no edge carries another label
than those of loops. Where control leaves, one more edge is to come; where it enters, one has come
already. -/
structure Fragment.Tallied (previous : ℕ) (f : Fragment) : Prop where
  out : ∀ i, countAt begin? f.edges i + mark f.leave i = mark previous i + tally waysOut f.nodes i
  into : ∀ i, countAt end? f.edges i = tally waysIn f.nodes i
  closed : ∀ i, countAt closed? f.edges i = tally headers f.nodes i
  quit : ∀ i, countAt quit? f.edges i = tally headers f.nodes i
  labels : ∀ e ∈ f.edges, e.label ∈ [none, some loopLabel, some exitLabel]

namespace Node

open Fragment (Tallied)

variable {next previous : ℕ} {loc : Option Span} {label description : String} {f g : Fragment}

lemma tallied_empty (previous : ℕ) : Tallied previous ⟨[], [], previous⟩ where
  out := by simp
  into := by simp
  closed := by simp
  quit := by simp
  labels := by simp

lemma tallied_step (next previous : ℕ) (hlabel : label ∉ junctions) (description : String)
    (loc : Option Span) : Tallied previous (step next previous label description loc) := by
  have hout : waysOut ⟨next, label, description, loc⟩ = 1 := waysOut_eq_one hlabel
  have hin : waysIn ⟨next, label, description, loc⟩ = 1 := waysIn_eq_one hlabel
  have hheaders : headers ⟨next, label, description, loc⟩ = 0 := headers_eq_zero hlabel
  exact {
    out := by simp [step, begin?, hout]
    into := by simp [step, end?, hin]
    closed := by simp [step, closed?, hheaders]
    quit := by simp [step, quit?, hheaders]
    labels := by simp [step] }

lemma tallied_andThen (hf : Tallied previous f) (hg : Tallied f.leave g) :
    Tallied previous (f.andThen g) where
  out := by
    intro i
    have hfirst := hf.out i
    have hsecond := hg.out i
    simp only [Fragment.andThen, countAt_append, tally_append]
    omega
  into := by simp [Fragment.andThen, hf.into, hg.into]
  closed := by simp [Fragment.andThen, hf.closed, hg.closed]
  quit := by simp [Fragment.andThen, hf.quit, hg.quit]
  labels := List.forall_mem_append.2 ⟨hf.labels, hg.labels⟩

/-- The point of a decision gets one edge from each of its ways, be it from their first points or
from itself to the point where they meet. -/
lemma tallied_decision (loc : Option Span) (hf : Tallied next f) (hg : Tallied next g) :
    Tallied previous (decision next previous loc f g) := by
  have hfork (k : ℕ) (d : String) : waysOut ⟨k, "if (...)", d, loc⟩ = 2 ∧
      waysIn ⟨k, "if (...)", d, loc⟩ = 1 ∧ headers ⟨k, "if (...)", d, loc⟩ = 0 := ⟨rfl, rfl, rfl⟩
  have hmeet (k : ℕ) (d : String) : waysOut ⟨k, "End If", d, none⟩ = 1 ∧
      waysIn ⟨k, "End If", d, none⟩ = 2 ∧ headers ⟨k, "End If", d, none⟩ = 0 := ⟨rfl, rfl, rfl⟩
  refine ⟨fun i => ?_, fun i => ?_, fun i => ?_, fun i => ?_, fun e he => ?_⟩
  -- Both ways are entered from `next`; the edges to the end of the decision are those to come.
  · have hyes := hf.out i
    have hno := hg.out i
    simp only [decision, countAt_cons, countAt_append, countAt_nil, tally_cons, tally_append,
      tally_nil, begin?, Option.elim_some, hfork, hmeet]
    omega
  · have hyes := hf.into i
    have hno := hg.into i
    simp only [decision, countAt_cons, countAt_append, countAt_nil, tally_cons, tally_append,
      tally_nil, end?, Option.elim_some, hfork, hmeet]
    omega
  · simp [decision, closed?, hfork, hmeet, hf.closed, hg.closed]
  · simp [decision, quit?, hfork, hmeet, hf.quit, hg.quit]
  · rcases mem_edges_decision.1 he with rfl | he | he | rfl | rfl
    · simp
    · exact hf.labels e he
    · exact hg.labels e he
    · simp
    · simp

/-- The header of a loop gets an edge from its body and one that quits it. -/
lemma tallied_loop (loc : Option Span) {header footer : String × String}
    (hheader : header.1 ∈ [whileHeader.1, forHeader.1]) (hfooter : footer.1 ∉ junctions)
    (hf : Tallied next f) : Tallied previous (loop next previous loc header footer f) := by
  have hhead (k : ℕ) (d : String) : waysOut ⟨k, header.1, d, loc⟩ = 2 ∧
      waysIn ⟨k, header.1, d, loc⟩ = 2 ∧ headers ⟨k, header.1, d, loc⟩ = 1 := by
    have h : isHeader ⟨k, header.1, d, loc⟩ = true := List.contains_iff_mem.2 hheader
    simp [waysOut, forks, waysIn, meets, headers, h]
  have hbehind (k : ℕ) (d : String) : waysOut ⟨k, footer.1, d, none⟩ = 1 ∧
      waysIn ⟨k, footer.1, d, none⟩ = 1 ∧ headers ⟨k, footer.1, d, none⟩ = 0 :=
    ⟨waysOut_eq_one hfooter, waysIn_eq_one hfooter, headers_eq_zero hfooter⟩
  have hlabels : exitLabel ≠ loopLabel := by decide
  refine ⟨fun i => ?_, fun i => ?_, fun i => ?_, fun i => ?_, fun e he => ?_⟩
  · have hbody := hf.out i
    simp only [loop, countAt_cons, countAt_append, countAt_nil, tally_cons, tally_append,
      tally_nil, begin?, Option.elim_some, hhead, hbehind]
    omega
  · have hbody := hf.into i
    simp only [loop, countAt_cons, countAt_append, countAt_nil, tally_cons, tally_append,
      tally_nil, end?, Option.elim_some, hhead, hbehind]
    omega
  · simp [loop, closed?, hhead, hbehind, hf.closed, hlabels, Nat.add_comm]
  · simp [loop, quit?, hhead, hbehind, hf.quit, Ne.symm hlabels, Nat.add_comm]
  · rcases mem_edges_loop.1 he with rfl | he | rfl | rfl
    · simp
    · exact hf.labels e he
    · simp
    · simp

lemma tallied_flowAll {ns : List Tree}
    (ih : ∀ n ∈ ns, ∀ next previous, Tallied previous (flow next previous n)) :
    ∀ next previous, Tallied previous (flowAll next previous ns) := by
  induction ns with
  | nil => exact fun _ previous => tallied_empty previous
  | cons n ns ihs =>
    intro next previous
    exact tallied_andThen (ih n (by simp) next previous)
      (ihs (fun m hm => ih m (by simp [hm])) _ _)

/-- The account holds for the piece of every tree. -/
lemma tallied_flow (t : Tree) : ∀ next previous, Tallied previous (t.flow next previous) := by
  induction t using Node.induction with
  | literal | name | binary => exact fun _ previous => tallied_empty previous
  | declare | assign =>
    exact fun next previous => tallied_step next previous (stored_not_mem_junctions _) _ _
  | ret => exact fun next previous => tallied_step next previous (by decide) _ _
  | branch c b e loc ihc ihb ihe =>
    intro next previous
    rcases e with _ | e
    · exact tallied_decision loc (ihb _ _) (tallied_empty _)
    · exact tallied_decision loc (ihb _ _) (ihe e rfl _ _)
  | whileLoop c b loc ihc ihb =>
    exact fun next previous => tallied_loop loc (by decide) (by decide) (ihb _ _)
  | forLoop b loc ihb =>
    exact fun next previous => tallied_loop loc (by decide) (by decide) (ihb _ _)
  | block ns loc ih | program ns loc ih => exact tallied_flowAll ih

end Node

/-! ### The whole graph -/

namespace FlowGraph

def outDegree (g : FlowGraph) (id : ℕ) : ℕ := g.edges.countP fun e => e.source = id

def inDegree (g : FlowGraph) (id : ℕ) : ℕ := g.edges.countP fun e => e.target = id

variable {t : Tree} {n : FlowNode} {i : ℕ}

lemma countAt_begin_ofTree (t : Tree) (i : ℕ) :
    countAt begin? (ofTree t).edges i = mark 0 i + tally waysOut (t.flow 1 0).nodes i := by
  have hout := (Node.tallied_flow t 1 0).out i
  simp only [ofTree_eq, countAt_append, countAt_cons, countAt_nil, begin?, Option.elim_some]
  omega

lemma countAt_end_ofTree (t : Tree) (i : ℕ) :
    countAt end? (ofTree t).edges i =
      tally waysIn (t.flow 1 0).nodes i + mark (ofTree t).stop i := by
  have hinto := (Node.tallied_flow t 1 0).into i
  simp only [ofTree_eq, countAt_append, countAt_cons, countAt_nil, end?, Option.elim_some]
  omega

lemma countAt_closed_ofTree (t : Tree) (i : ℕ) :
    countAt closed? (ofTree t).edges i = tally headers (t.flow 1 0).nodes i := by
  rw [← (Node.tallied_flow t 1 0).closed i]
  simp [ofTree_eq, closed?]

lemma countAt_quit_ofTree (t : Tree) (i : ℕ) :
    countAt quit? (ofTree t).edges i = tally headers (t.flow 1 0).nodes i := by
  rw [← (Node.tallied_flow t 1 0).quit i]
  simp [ofTree_eq, quit?]

lemma label_cases {e : FlowEdge} {label : String} (he : e ∈ (ofTree t).edges)
    (hlabel : e.label = some label) : label = loopLabel ∨ label = exitLabel := by
  rcases mem_edges_ofTree.1 he with he | rfl
  · simpa [hlabel] using (Node.tallied_flow t 1 0).labels e he
  · cases hlabel

lemma zero_ne_stop (t : Tree) : 0 ≠ (ofTree t).stop := by
  rw [stop_ofTree]
  omega

/-- A node of the piece is neither the first nor the last one, and its number is its own. -/
lemma tally_flow (hn : n ∈ (t.flow 1 0).nodes) (weight : FlowNode → ℕ) :
    n.id ≠ 0 ∧ n.id ≠ (ofTree t).stop ∧ tally weight (t.flow 1 0).nodes n.id = weight n := by
  have hnumbered := (Node.flow_placed t 1 0).numbered
  have hid : n.id ∈ (t.flow 1 0).nodes.map FlowNode.id := List.mem_map_of_mem hn
  have hnodup : ((t.flow 1 0).nodes.map FlowNode.id).Nodup := by
    rw [hnumbered]
    exact List.nodup_range'
  rw [hnumbered, List.mem_range'_1] at hid
  rw [stop_ofTree]
  exact ⟨by omega, by omega, tally_eq hnodup hn⟩

/-- The first and the last number are not among those of the piece. -/
lemma tally_flow_eq_zero (weight : FlowNode → ℕ) (hi : i = 0 ∨ i = (ofTree t).stop) :
    tally weight (t.flow 1 0).nodes i = 0 := by
  refine tally_eq_zero ?_
  rw [(Node.flow_placed t 1 0).numbered, List.mem_range'_1]
  rw [stop_ofTree] at hi
  omega

lemma node_cases (hn : n ∈ (ofTree t).nodes) : n = ⟨0, "Start", "Program Begin", none⟩ ∨
    n ∈ (t.flow 1 0).nodes ∨ n = ⟨(ofTree t).stop, "End", "Program End", none⟩ := by
  rw [stop_ofTree]
  rwa [ofTree_eq, List.mem_cons, List.mem_append, List.mem_singleton] at hn

/-- Headers of loops are found in the piece only. -/
lemma mem_flow_of_isHeader (hn : n ∈ (ofTree t).nodes) (hheader : n.isHeader) :
    n ∈ (t.flow 1 0).nodes := by
  rcases node_cases hn with rfl | hn | rfl
  · exact absurd hheader (by decide)
  · exact hn
  · exact absurd hheader (by simp [isHeader, Node.whileHeader, Node.forHeader])

/-- Where the headers of loops are counted, there is one. -/
lemma exists_header (h : 0 < tally headers (t.flow 1 0).nodes i) :
    ∃ n ∈ (ofTree t).nodes, n.isHeader ∧ n.id = i := by
  obtain ⟨n, hn, hid, hpos⟩ := exists_of_tally_pos h
  have hheader : n.isHeader := by
    by_contra hnot
    simp [headers, hnot] at hpos
  exact ⟨n, by simp [ofTree_eq, hn], hheader, hid⟩

lemma outDegree_eq (g : FlowGraph) (i : ℕ) : g.outDegree i = countAt begin? g.edges i := by
  simp [outDegree, countAt, begin?]

lemma inDegree_eq (g : FlowGraph) (i : ℕ) : g.inDegree i = countAt end? g.edges i := by
  simp [inDegree, countAt, end?]

structure Regular (g : FlowGraph) : Prop where
  start : ∃ n ∈ g.nodes, n.id = g.start ∧ n.label = "Start"
  stop : ∃ n ∈ g.nodes, n.id = g.stop ∧ n.label = "End"
  out : ∀ n ∈ g.nodes,
    g.outDegree n.id = if n.id = g.stop then 0 else if n.forks then 2 else 1
  into : ∀ n ∈ g.nodes,
    g.inDegree n.id = if n.id = g.start then 0 else if n.meets then 2 else 1
  /-- One edge closes each loop. -/
  closed : ∀ n ∈ g.nodes, n.isHeader →
    (g.edges.countP fun e => e.target = n.id ∧ e.label = some loopLabel) = 1
  /-- One edge quits each loop. -/
  quit : ∀ n ∈ g.nodes, n.isHeader →
    (g.edges.countP fun e => e.source = n.id ∧ e.label = some exitLabel) = 1
  /-- No other edge carries a label. -/
  labels : ∀ e ∈ g.edges, ∀ label, e.label = some label →
    (label = loopLabel ∧ ∃ n ∈ g.nodes, n.isHeader ∧ n.id = e.target) ∨
      (label = exitLabel ∧ ∃ n ∈ g.nodes, n.isHeader ∧ n.id = e.source)

/-- **Degrees**: in the graph of every tree two edges leave the header of a decision or a loop, none
leaves the last node and one leaves any other; two edges reach the end of a decision and the header
of a loop, none reaches the first node and one reaches any other. Labels are carried by the edge
that closes a loop and by the edge that quits it, one of each for every loop, and by no others. -/
theorem regular_ofTree (t : Tree) : (ofTree t).Regular where
  start := ⟨⟨0, "Start", "Program Begin", none⟩, by simp [ofTree_eq], by simp [ofTree_eq], rfl⟩
  stop := by
    refine ⟨⟨(ofTree t).stop, "End", "Program End", none⟩, ?_, rfl, rfl⟩
    rw [stop_ofTree]
    simp [ofTree_eq]
  out := by
    intro n hn
    rw [outDegree_eq, countAt_begin_ofTree]
    rcases node_cases hn with rfl | hn | rfl
    · rw [tally_flow_eq_zero waysOut (.inl rfl), if_neg (zero_ne_stop t)]
      rfl
    · obtain ⟨hfirst, hlast, htally⟩ := tally_flow hn waysOut
      rw [htally, mark_of_ne (Ne.symm hfirst), if_neg hlast, waysOut, Nat.zero_add]
    · rw [tally_flow_eq_zero waysOut (.inr rfl), mark_of_ne (zero_ne_stop t), if_pos rfl]
  into := by
    intro n hn
    rw [inDegree_eq, countAt_end_ofTree, start_ofTree]
    rcases node_cases hn with rfl | hn | rfl
    · rw [tally_flow_eq_zero waysIn (.inl rfl), mark_of_ne (zero_ne_stop t).symm, if_pos rfl]
    · obtain ⟨hfirst, hlast, htally⟩ := tally_flow hn waysIn
      rw [htally, mark_of_ne (Ne.symm hlast), if_neg hfirst, waysIn, Nat.add_zero]
    · rw [tally_flow_eq_zero waysIn (.inr rfl), mark_self, if_neg (zero_ne_stop t).symm]
      rfl
  closed := by
    intro n hn hheader
    obtain ⟨-, -, htally⟩ := tally_flow (mem_flow_of_isHeader hn hheader) headers
    have hcount := countAt_closed_ofTree t n.id
    rw [htally, headers, if_pos hheader] at hcount
    simpa only [countAt, closed?_eq_some] using hcount
  quit := by
    intro n hn hheader
    obtain ⟨-, -, htally⟩ := tally_flow (mem_flow_of_isHeader hn hheader) headers
    have hcount := countAt_quit_ofTree t n.id
    rw [htally, headers, if_pos hheader] at hcount
    simpa only [countAt, quit?_eq_some] using hcount
  labels := by
    intro e he label hlabel
    rcases label_cases he hlabel with rfl | rfl
    · have hpos := countAt_pos he (closed?_eq_some.2 ⟨rfl, hlabel⟩)
      rw [countAt_closed_ofTree] at hpos
      exact .inl ⟨rfl, exists_header hpos⟩
    · have hpos := countAt_pos he (quit?_eq_some.2 ⟨rfl, hlabel⟩)
      rw [countAt_quit_ofTree] at hpos
      exact .inr ⟨rfl, exists_header hpos⟩

end FlowGraph

end Primer
