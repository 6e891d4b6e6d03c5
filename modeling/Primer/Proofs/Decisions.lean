import Mathlib.Tactic
import Primer.Proofs.FlowShape
import Primer.Proofs.TreeShape
import Primer.View.Score

/-!
The decisions of a program, as the score and the graph count them.

A decision is a control structure that is reached through rows of statements, bodies and `else`
parts. Each of them gives the graph one edge more than nodes, and costs the score one, and one more
for each control structure around it. So a tree that is put one level deeper costs one more for each
of its decisions, wherever in a program this happens.
-/

namespace Primer.Node

/-! ### Places in a program -/

def isControl : Tree → Bool
  | .branch .. => true
  | .whileLoop .. => true
  | .forLoop .. => true
  | _ => false

def inner : Tree → List Tree
  | .branch _ b e _ => b :: e.toList
  | .whileLoop _ b _ => [b]
  | .forLoop b _ => [b]
  | .block ns _ => ns
  | .program ns _ => ns
  | _ => []

mutual

/-- The nodes that are reached through rows, bodies and `else` parts, each with all the nodes around
it, the innermost first. -/
def places (around : List Tree) : Tree → List (Tree × List Tree)
  | .branch c b none loc =>
    let n := .branch c b none loc
    (n, around) :: b.places (n :: around)
  | .branch c b (some e) loc =>
    let n := .branch c b (some e) loc
    (n, around) :: (b.places (n :: around) ++ e.places (n :: around))
  | .whileLoop c b loc =>
    let n := .whileLoop c b loc
    (n, around) :: b.places (n :: around)
  | .forLoop b loc =>
    let n := .forLoop b loc
    (n, around) :: b.places (n :: around)
  | .block ns loc =>
    let n := .block ns loc
    (n, around) :: placesAll (n :: around) ns
  | .program ns loc =>
    let n := .program ns loc
    (n, around) :: placesAll (n :: around) ns
  | n => [(n, around)]

def placesAll (around : List Tree) : List Tree → List (Tree × List Tree)
  | [] => []
  | n :: ns => n.places around ++ placesAll around ns

end

def decisions (n : Tree) : ℕ := (n.places []).countP fun p => p.1.isControl

lemma placesAll_eq_flatMap (around ns : List Tree) :
    placesAll around ns = ns.flatMap (places around) := by
  induction ns with
  | nil => rfl
  | cons n ns ih => rw [placesAll, ih, List.flatMap_cons]

/-- A node stands before the nodes inside it. -/
lemma places_eq (around : List Tree) (n : Tree) :
    n.places around = (n, around) :: n.inner.flatMap (places (n :: around)) := by
  cases n with
  | branch c b e loc => cases e <;> simp [places, inner]
  | _ => simp [places, inner, placesAll_eq_flatMap]

lemma inner_subset_children (n : Tree) : n.inner ⊆ n.children := by
  cases n with
  | branch c b e loc => exact List.subset_cons_self _ _
  | whileLoop c b loc => exact List.subset_cons_self _ _
  | forLoop b loc | block ns loc | program ns loc => exact List.Subset.refl _
  | _ => exact List.nil_subset _

/-- What passes from the statements inside a tree to the tree holds of all trees. -/
@[elab_as_elim]
lemma innerInduction {motive : Tree → Prop}
    (step : ∀ n, (∀ m ∈ n.inner, motive m) → motive n) (n : Tree) : motive n := by
  induction n using childInduction with
  | step n ih => exact step n fun m hm => ih m (inner_subset_children n hm)

lemma countP_places (n : Tree) :
    ∀ around, (n.places around).countP (fun p => p.1.isControl) = n.decisions := by
  induction n using innerInduction with
  | step n ih =>
    intro around
    simp only [decisions, places_eq, List.countP_cons, List.countP_flatMap]
    congr 2
    refine List.map_congr_left fun m hm => ?_
    simp only [Function.comp_apply, ih m hm]

lemma decisions_eq (n : Tree) :
    n.decisions = (n.inner.map decisions).sum + if n.isControl then 1 else 0 := by
  rw [decisions, places_eq, List.countP_cons, List.countP_flatMap]
  congr 2
  exact List.map_congr_left fun m _ => countP_places m _

/-! ### The score -/

lemma scoreAll_eq_sum (d : ℤ) (ns : List Tree) : scoreAll d ns = (ns.map (scoreAt d)).sum := by
  induction ns with
  | nil => rfl
  | cons n ns ih => rw [scoreAll, ih, List.map_cons, List.sum_cons]

/-- A control structure costs one more than its depth and makes what is inside it deeper. -/
lemma scoreAt_control {n : Tree} (h : n.isControl) (d : ℤ) :
    n.scoreAt d = 1 + d + (n.inner.map (scoreAt (d + 1))).sum := by
  cases n with
  | branch c b e loc => cases e <;> simp [scoreAt, inner, add_assoc]
  | whileLoop c b loc | forLoop b loc => simp [scoreAt, inner]
  | _ => cases h

lemma scoreAt_free {n : Tree} (h : n.isControl = false) (d : ℤ) :
    n.scoreAt d = (n.inner.map (scoreAt d)).sum := by
  cases n with
  | branch | whileLoop | forLoop => cases h
  | block ns loc | program ns loc => rw [scoreAt, scoreAll_eq_sum, inner]
  | _ => rfl

/-- Each level around a tree costs one for each of its decisions. -/
lemma scoreAt_eq (n : Tree) : ∀ d : ℤ, n.scoreAt d = n.scoreAt 0 + d * n.decisions := by
  induction n using innerInduction with
  | step n ih =>
    intro d
    have hsum (d : ℤ) : (n.inner.map (scoreAt d)).sum =
        (n.inner.map (scoreAt 0)).sum + d * (n.inner.map decisions).sum := by
      rw [List.map_congr_left fun m hm => ih m hm d, List.sum_map_add, List.sum_map_mul_left,
        Nat.cast_list_sum, List.map_map]
      rfl
    rw [decisions_eq]
    cases h : n.isControl with
    | true =>
      rw [scoreAt_control h, scoreAt_control h, hsum, hsum (0 + 1)]
      push_cast
      simp
      ring
    | false =>
      rw [scoreAt_free h, scoreAt_free h, hsum]
      simp

/-- The cost of the control structures among some places: one, and one more for each control
structure around. -/
def cost (ps : List (Tree × List Tree)) : ℤ :=
  ((ps.filter fun p => p.1.isControl).map fun p => (1 + p.2.countP isControl : ℤ)).sum

lemma cost_cons (p : Tree × List Tree) (ps : List (Tree × List Tree)) :
    cost (p :: ps) = (if p.1.isControl then 1 + (p.2.countP isControl : ℤ) else 0) + cost ps := by
  unfold cost
  split <;> simp [*]

lemma cost_flatMap (f : Tree → List (Tree × List Tree)) (ns : List Tree) :
    cost (ns.flatMap f) = (ns.map fun n => cost (f n)).sum := by
  induction ns with
  | nil => rfl
  | cons n ns ih => simpa [cost] using ih

/-- Below the nodes around it, a tree is scored as its control structures cost. -/
lemma scoreAt_eq_cost (n : Tree) :
    ∀ around, n.scoreAt (around.countP isControl) = cost (n.places around) := by
  induction n using innerInduction with
  | step n ih =>
    intro around
    have hinner := List.map_congr_left fun m hm => ih m hm (n :: around)
    rw [places_eq, cost_cons, cost_flatMap, ← hinner, List.countP_cons]
    cases h : n.isControl with
    | true => simp [scoreAt_control h]
    | false => simp [scoreAt_free h]

/-! ### The graph -/

/-- The edges of a piece of the graph are its nodes and one for each decision. -/
lemma length_edges_flow (t : Tree) : ∀ next previous,
    (t.flow next previous).edges.length = (t.flow next previous).nodes.length + t.decisions := by
  have row {ns : List Tree} (ih : ∀ n ∈ ns, ∀ next previous, (n.flow next previous).edges.length =
      (n.flow next previous).nodes.length + n.decisions) : ∀ next previous,
      (flowAll next previous ns).edges.length =
        (flowAll next previous ns).nodes.length + (ns.map decisions).sum := by
    induction ns with
    | nil => exact fun _ _ => rfl
    | cons n ns ihs =>
      intro next previous
      have hfirst := ih n (by simp) next previous
      have hrest := ihs (fun m hm => ih m (by simp [hm]))
        (next + (n.flow next previous).nodes.length) (n.flow next previous).leave
      simp only [flowAll, Fragment.andThen, List.length_append, List.map_cons, List.sum_cons]
      omega
  induction t using Node.induction with
  | literal | name | binary => exact fun _ _ => rfl
  | declare | assign | ret => exact fun _ _ => rfl
  | branch c b e loc ihc ihb ihe =>
    intro next previous
    have hbody := ihb (next + 1) next
    cases e with
    | none =>
      rw [flow, length_edges_decision, length_nodes_decision, decisions_eq]
      simp only [inner, isControl, Option.toList_none, List.map_cons, List.map_nil, List.sum_cons,
        List.sum_nil, List.length_nil, if_true]
      omega
    | some e =>
      have helse := ihe e rfl (next + 1 + (b.flow (next + 1) next).nodes.length) next
      rw [flow, length_edges_decision, length_nodes_decision, decisions_eq]
      simp only [inner, isControl, Option.toList_some, List.map_cons, List.map_nil, List.sum_cons,
        List.sum_nil, if_true]
      omega
  | whileLoop c b loc ihc ihb =>
    intro next previous
    have hbody := ihb (next + 1) next
    rw [flow, length_edges_loop, length_nodes_loop, decisions_eq]
    simp only [inner, isControl, List.map_cons, List.map_nil, List.sum_cons, List.sum_nil, if_true]
    omega
  | forLoop b loc ihb =>
    intro next previous
    have hbody := ihb (next + 1) next
    rw [flow, length_edges_loop, length_nodes_loop, decisions_eq]
    simp only [inner, isControl, List.map_cons, List.map_nil, List.sum_cons, List.sum_nil, if_true]
    omega
  | block ns loc ih | program ns loc ih =>
    intro next previous
    rw [decisions_eq]
    exact row ih next previous

/-- **Decisions in the graph**: there is one for each edge beyond those of a tree over the nodes. -/
lemma decisions_eq_edges (t : Tree) : (t.decisions : ℤ) =
    (FlowGraph.ofTree t).edges.length - (FlowGraph.ofTree t).nodes.length + 1 := by
  have hpiece := length_edges_flow t 1 0
  rw [FlowGraph.ofTree_eq]
  simp only [List.length_append, List.length_cons, List.length_nil, hpiece]
  push_cast
  ring

/-! ### Statements that are moved -/

/-- A control structure without one of its bodies. -/
inductive Shell where
  | ifBody (condition : Tree) (otherwise : Option Tree) (loc : Option Span)
  | elseBody (condition body : Tree) (loc : Option Span)
  | whileBody (condition : Tree) (loc : Option Span)
  | forBody (loc : Option Span)

def Shell.around : Shell → Tree → Tree
  | .ifBody c e loc, b => .branch c b e loc
  | .elseBody c b loc, e => .branch c b (some e) loc
  | .whileBody c loc, b => .whileLoop c b loc
  | .forBody loc, b => .forLoop b loc

/-- A row of statements with an opening in it, in a block or in a whole program. -/
structure Row where
  whole : Bool
  before : List Tree
  after : List Tree
  loc : Option Span

def Row.fill (r : Row) (ns : List Tree) : Tree :=
  if r.whole then .program (r.before ++ (ns ++ r.after)) r.loc
  else .block (r.before ++ (ns ++ r.after)) r.loc

/-- A tree with an opening in one of its rows of statements, at any depth. -/
inductive Context where
  | row (r : Row)
  | inRow (r : Row) (c : Context)
  | inShell (s : Shell) (c : Context)

def Context.fill : Context → List Tree → Tree
  | .row r, ns => r.fill ns
  | .inRow r c, ns => r.fill [c.fill ns]
  | .inShell s c, ns => s.around (c.fill ns)

lemma scoreAt_row (r : Row) (ns : List Tree) (d : ℤ) : (r.fill ns).scoreAt d =
    scoreAll d ns + (scoreAll d r.before + scoreAll d r.after) := by
  unfold Row.fill
  split <;> simp [scoreAt, scoreAll_eq_sum] <;> ring

lemma scoreAt_shell (s : Shell) : ∃ rest : ℤ → ℤ, ∀ n d,
    (s.around n).scoreAt d = n.scoreAt (d + 1) + rest d := by
  cases s with
  | ifBody c e loc =>
    cases e with
    | none => exact ⟨fun d => 1 + d, fun n d => by simp [Shell.around, scoreAt]; ring⟩
    | some e =>
      exact ⟨fun d => 1 + d + e.scoreAt (d + 1), fun n d => by simp [Shell.around, scoreAt]; ring⟩
  | elseBody c b loc =>
    exact ⟨fun d => 1 + d + b.scoreAt (d + 1), fun n d => by simp [Shell.around, scoreAt]; ring⟩
  | whileBody c loc => exact ⟨fun d => 1 + d, fun n d => by simp [Shell.around, scoreAt]; ring⟩
  | forBody loc => exact ⟨fun d => 1 + d, fun n d => by simp [Shell.around, scoreAt]; ring⟩

/-- What is gained at the opening at every depth is gained by the whole tree. -/
lemma scoreAt_context {ms ns : List Tree} {gain : ℤ}
    (h : ∀ d, scoreAll d ms = scoreAll d ns + gain) (c : Context) :
    ∀ d, (c.fill ms).scoreAt d = (c.fill ns).scoreAt d + gain := by
  induction c with
  | row r =>
    intro d
    simp only [Context.fill, scoreAt_row, h d]
    ring
  | inRow r c ih =>
    intro d
    simp only [Context.fill, scoreAt_row, scoreAll, ih d]
    ring
  | inShell s c ih =>
    intro d
    obtain ⟨rest, hrest⟩ := scoreAt_shell s
    simp only [Context.fill, hrest, ih (d + 1)]
    ring

/-- A statement behind a control structure goes to the end of its block. -/
lemma scoreAll_tuck (s : Shell) (ns : List Tree) (n : Tree) (loc : Option Span) (d : ℤ) :
    scoreAll d [s.around (.block (ns ++ [n]) loc)] =
      scoreAll d [s.around (.block ns loc), n] + n.decisions := by
  obtain ⟨rest, hrest⟩ := scoreAt_shell s
  have hdeep := scoreAt_eq n (d + 1)
  have hflat := scoreAt_eq n d
  simp only [scoreAll, hrest, scoreAt, scoreAll_eq_sum, List.map_append, List.sum_append,
    List.map_cons, List.map_nil, List.sum_cons, List.sum_nil, hdeep, hflat]
  ring

/-- **The score counts decisions**, as the graph does: each level around a tree costs as much as the
graph has edges beyond those of a tree over its nodes, the score is the sum over the control
structures of one and the number of those around, and a statement that is moved from behind a
control structure to the end of its block, anywhere in a program, costs one more for each control
structure in it. -/
theorem score_counts_decisions (t : Tree) :
    (∀ d : ℤ, t.scoreAt d = t.scoreAt 0 +
      d * ((FlowGraph.ofTree t).edges.length - (FlowGraph.ofTree t).nodes.length + 1)) ∧
    t.scoreAt 0 = (((t.places []).filter fun p => p.1.isControl).map
      fun p => (1 + p.2.countP isControl : ℤ)).sum ∧
    ∀ (c : Context) (s : Shell) (ns : List Tree) (loc : Option Span) (n : Tree),
      (c.fill [s.around (.block (ns ++ [n]) loc)]).score =
        (c.fill [s.around (.block ns loc), n]).score + n.decisions ∧
      (c.fill [s.around (.block ns loc), n]).score ≤
        (c.fill [s.around (.block (ns ++ [n]) loc)]).score := by
  refine ⟨fun d => ?_, scoreAt_eq_cost t [], fun c s ns loc n => ?_⟩
  · rw [← decisions_eq_edges]
    exact scoreAt_eq t d
  · have hmoved := scoreAt_context (scoreAll_tuck s ns n loc) c 0
    refine ⟨hmoved, ?_⟩
    rw [score, score, hmoved]
    omega

end Primer.Node
