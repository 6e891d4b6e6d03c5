import Mathlib.Tactic
import Primer.Proofs.FlowTrace

/-!
The shape of the graph of a program.

The points are numbered in order from the first to the last, and each of them lies on a way from the
first to the last. An edge leads to a smaller or the same number only to close a loop. It then leads
to the header of the loop, and the numbers from the header to the end of the loop make a region that
is entered at the header alone. So every way into a loop passes its header.

Both facts are carried from piece to piece: the edges around a piece end outside of it, so what is
said about the edges of a piece stays true in the graph.
-/

namespace Primer

/-! ### Ways along edges -/

def Reaches (E : List FlowEdge) (a b : ℕ) : Prop := ∃ ns, Walk E b a ns

namespace Reaches

variable {E F : List FlowEdge} {a b c : ℕ}

lemma refl (E : List FlowEdge) (a : ℕ) : Reaches E a a := ⟨[], .stay⟩

lemma trans (h : Reaches E a b) (h' : Reaches E b c) : Reaches E a c := by
  obtain ⟨ns, h⟩ := h
  obtain ⟨ms, h'⟩ := h'
  exact ⟨ns ++ ms, h.append h'⟩

lemma mono (h : Reaches E a b) (hEF : E ⊆ F) : Reaches F a b := by
  obtain ⟨ns, h⟩ := h
  exact ⟨ns, h.mono hEF⟩

lemma edge {e : FlowEdge} (he : e ∈ E) : Reaches E e.source e.target := ⟨_, .step he .stay⟩

/-- Two ways make one that passes the point between them. -/
lemma exists_walk (h : Reaches E a b) (h' : Reaches E b c) :
    ∃ ns, Walk E c a ns ∧ b ∈ a :: ns := by
  obtain ⟨ns, h⟩ := h
  obtain ⟨ms, h'⟩ := h'
  refine ⟨ns ++ ms, h.append h', ?_⟩
  have hend : b ∈ a :: ns := by
    clear h'
    induction h with
    | stay => exact List.mem_cons_self
    | step _ _ ih => exact List.mem_cons_of_mem _ ih
  rw [← List.cons_append]
  exact List.mem_append_left _ hend

end Reaches

namespace Walk

variable {E : List FlowEdge} {a b c : ℕ} {ns : List ℕ}

/-- A region that is entered only at `c` is reached only through `c`. -/
lemma mem_of_entered {W : Set ℕ} (h : Walk E b a ns)
    (hW : ∀ e ∈ E, e.target ∈ W → e.target = c ∨ e.source ∈ W) (ha : a ∉ W) (hb : b ∈ W) :
    c ∈ ns := by
  induction h with
  | stay => exact absurd hb ha
  | @step e ns he rest ih =>
    by_cases ht : e.target ∈ W
    · rcases hW e he ht with rfl | hs
      · exact List.mem_cons_self
      · exact absurd hs ha
    · exact List.mem_cons_of_mem _ (ih ht)

/-- Along edges that all lead to greater numbers, a way gets on by one at least with every step. -/
lemma length_le_of_ahead (h : Walk E b a ns) (hE : ∀ e ∈ E, e.source < e.target) :
    a + ns.length ≤ b := by
  induction h with
  | stay => simp
  | @step e ns he rest ih =>
    have hlt := hE e he
    rw [List.length_cons]
    omega

end Walk

/-! ### What a decision and a loop are made of -/

namespace Node

variable {next previous : ℕ} {loc : Option Span} {yes no body : Fragment}
  {header footer : String × String} {e : FlowEdge} {n : FlowNode}

lemma mem_edges_decision : e ∈ (decision next previous loc yes no).edges ↔
    e = ⟨previous, next, none⟩ ∨ e ∈ yes.edges ∨ e ∈ no.edges ∨
      e = ⟨yes.leave, next + 1 + yes.nodes.length + no.nodes.length, none⟩ ∨
      e = ⟨no.leave, next + 1 + yes.nodes.length + no.nodes.length, none⟩ := by
  simp [decision]

lemma mem_nodes_decision (h : n ∈ (decision next previous loc yes no).nodes) :
    n.id = next ∨ n ∈ yes.nodes ∨ n ∈ no.nodes ∨
      n.id = (decision next previous loc yes no).leave := by
  simp only [decision, List.mem_cons, List.mem_append, List.not_mem_nil, or_false] at h ⊢
  rcases h with rfl | (h | h) | rfl <;> simp [*]

lemma length_nodes_decision : (decision next previous loc yes no).nodes.length =
    yes.nodes.length + no.nodes.length + 2 := by
  simp [decision, Nat.add_assoc]

lemma length_edges_decision : (decision next previous loc yes no).edges.length =
    yes.edges.length + no.edges.length + 3 := by
  simp [decision, Nat.add_assoc]

lemma mem_edges_loop : e ∈ (loop next previous loc header footer body).edges ↔
    e = ⟨previous, next, none⟩ ∨ e ∈ body.edges ∨
      e = ⟨body.leave, next, some FlowEdge.loopLabel⟩ ∨
      e = ⟨next, next + 1 + body.nodes.length, some FlowEdge.exitLabel⟩ := by
  simp [loop]

lemma mem_nodes_loop (h : n ∈ (loop next previous loc header footer body).nodes) :
    n.id = next ∨ n ∈ body.nodes ∨ n.id = (loop next previous loc header footer body).leave := by
  simp only [loop, List.mem_cons, List.mem_append, List.not_mem_nil, or_false] at h ⊢
  rcases h with rfl | h | rfl <;> simp [*]

lemma length_nodes_loop :
    (loop next previous loc header footer body).nodes.length = body.nodes.length + 2 := by
  simp [loop]

lemma length_edges_loop :
    (loop next previous loc header footer body).edges.length = body.edges.length + 3 := by
  simp [loop]

end Node

/-! ### Pieces that control can pass -/

/-- Every point of the piece is reached from where control enters, and control gets from it to where
it leaves. -/
structure Fragment.Threaded (previous : ℕ) (f : Fragment) : Prop where
  through : Reaches f.edges previous f.leave
  into : ∀ n ∈ f.nodes, Reaches f.edges previous n.id
  out : ∀ n ∈ f.nodes, Reaches f.edges n.id f.leave

namespace Node

open Fragment (Placed Threaded)

lemma threaded_empty (previous : ℕ) : Threaded previous ⟨[], [], previous⟩ where
  through := .refl _ _
  into := by simp
  out := by simp

lemma threaded_step (next previous : ℕ) (label description : String) (loc : Option Span) :
    Threaded previous (step next previous label description loc) := by
  have hedge : Reaches [⟨previous, next, none⟩] previous next :=
    .edge (e := ⟨previous, next, none⟩) List.mem_cons_self
  refine ⟨hedge, ?_, ?_⟩
  · intro n hn
    obtain rfl := List.mem_singleton.mp hn
    exact hedge
  · intro n hn
    obtain rfl := List.mem_singleton.mp hn
    exact .refl _ _

lemma threaded_andThen {previous : ℕ} {f g : Fragment} (hf : Threaded previous f)
    (hg : Threaded f.leave g) : Threaded previous (f.andThen g) := by
  have hleft : f.edges ⊆ (f.andThen g).edges := List.subset_append_left _ _
  have hright : g.edges ⊆ (f.andThen g).edges := List.subset_append_right _ _
  have hthrough := hf.through.mono hleft
  refine ⟨hthrough.trans (hg.through.mono hright), ?_, ?_⟩
  · intro n hn
    rcases List.mem_append.mp hn with hn | hn
    · exact (hf.into n hn).mono hleft
    · exact hthrough.trans ((hg.into n hn).mono hright)
  · intro n hn
    rcases List.mem_append.mp hn with hn | hn
    · exact ((hf.out n hn).mono hleft).trans (hg.through.mono hright)
    · exact (hg.out n hn).mono hright

lemma threaded_decision {next previous : ℕ} {yes no : Fragment} (loc : Option Span)
    (hy : Threaded next yes) (hn : Threaded next no) :
    Threaded previous (decision next previous loc yes no) := by
  set f := decision next previous loc yes no
  have hyes : yes.edges ⊆ f.edges := fun e he => mem_edges_decision.mpr (by simp [he])
  have hno : no.edges ⊆ f.edges := fun e he => mem_edges_decision.mpr (by simp [he])
  have enter : Reaches f.edges previous next :=
    .edge (e := ⟨previous, next, none⟩) (mem_edges_decision.mpr (by simp))
  have fromYes : Reaches f.edges yes.leave f.leave :=
    .edge (e := ⟨yes.leave, f.leave, none⟩) (mem_edges_decision.mpr (by simp [f, decision]))
  have fromNo : Reaches f.edges no.leave f.leave :=
    .edge (e := ⟨no.leave, f.leave, none⟩) (mem_edges_decision.mpr (by simp [f, decision]))
  have across : Reaches f.edges next f.leave := (hy.through.mono hyes).trans fromYes
  refine ⟨enter.trans across, ?_, ?_⟩
  · intro n hmem
    rcases mem_nodes_decision hmem with h | h | h | h
    · exact h ▸ enter
    · exact enter.trans ((hy.into n h).mono hyes)
    · exact enter.trans ((hn.into n h).mono hno)
    · exact h ▸ enter.trans across
  · intro n hmem
    rcases mem_nodes_decision hmem with h | h | h | h
    · exact h ▸ across
    · exact ((hy.out n h).mono hyes).trans fromYes
    · exact ((hn.out n h).mono hno).trans fromNo
    · exact h ▸ .refl _ _

lemma threaded_loop {next previous : ℕ} {body : Fragment} (loc : Option Span)
    (header footer : String × String) (hb : Threaded next body) :
    Threaded previous (loop next previous loc header footer body) := by
  set f := loop next previous loc header footer body
  have hbody : body.edges ⊆ f.edges := fun e he => mem_edges_loop.mpr (by simp [he])
  have enter : Reaches f.edges previous next :=
    .edge (e := ⟨previous, next, none⟩) (mem_edges_loop.mpr (by simp))
  have back : Reaches f.edges body.leave next :=
    .edge (e := ⟨body.leave, next, some FlowEdge.loopLabel⟩) (mem_edges_loop.mpr (by simp))
  have exit : Reaches f.edges next f.leave :=
    .edge (e := ⟨next, f.leave, some FlowEdge.exitLabel⟩) (mem_edges_loop.mpr (by simp [f, loop]))
  refine ⟨enter.trans exit, ?_, ?_⟩
  · intro n hmem
    rcases mem_nodes_loop hmem with h | h | h
    · exact h ▸ enter
    · exact enter.trans ((hb.into n h).mono hbody)
    · exact h ▸ enter.trans exit
  · intro n hmem
    rcases mem_nodes_loop hmem with h | h | h
    · exact h ▸ exit
    · exact ((hb.out n h).mono hbody).trans (back.trans exit)
    · exact h ▸ .refl _ _

lemma flowAll_threaded {ns : List Tree}
    (ih : ∀ n ∈ ns, ∀ next previous, Threaded previous (flow next previous n)) :
    ∀ next previous, Threaded previous (flowAll next previous ns) := by
  induction ns with
  | nil => exact fun _ previous => threaded_empty previous
  | cons n ns ihs =>
    intro next previous
    exact threaded_andThen (ih n (by simp) next previous)
      (ihs (fun m hm => ih m (by simp [hm])) _ _)

/-- Control passes the piece of every tree, and every point of it. -/
lemma flow_threaded (t : Tree) : ∀ next previous, Threaded previous (t.flow next previous) := by
  induction t using Node.induction with
  | literal | name | binary => exact fun _ previous => threaded_empty previous
  | declare | assign | ret => exact fun next previous => threaded_step next previous _ _ _
  | branch c b e loc ihc ihb ihe =>
    intro next previous
    rcases e with _ | e
    · exact threaded_decision loc (ihb _ _) (threaded_empty _)
    · exact threaded_decision loc (ihb _ _) (ihe e rfl _ _)
  | whileLoop c b loc ihc ihb => exact fun next previous => threaded_loop loc _ _ (ihb _ _)
  | forLoop b loc ihb => exact fun next previous => threaded_loop loc _ _ (ihb _ _)
  | block ns loc ih | program ns loc ih => exact flowAll_threaded ih

end Node

/-! ### Loops -/

def FlowNode.IsLoopHeader (n : FlowNode) : Prop :=
  (n.label, n.description) = Node.whileHeader ∨ (n.label, n.description) = Node.forHeader

/-- The edge closes a loop: it leads to a header, and the numbers from there to `bound` make a
region that holds its source and that other edges enter at the header alone. -/
structure FlowEdge.Closes (nodes : List FlowNode) (E : List FlowEdge) (bound : ℕ) (e : FlowEdge) :
    Prop where
  header : ∃ n ∈ nodes, n.id = e.target ∧ n.IsLoopHeader
  le_source : e.target ≤ e.source
  source_lt : e.source < bound
  entered : ∀ e' ∈ E, e.target < e'.target → e'.target < bound →
    e.target ≤ e'.source ∧ e'.source < bound

/-- Edges that lead past the region do not matter. -/
lemma FlowEdge.Closes.extend {nodes nodes' : List FlowNode} {E F : List FlowEdge} {bound : ℕ}
    {e : FlowEdge} (h : e.Closes nodes E bound) (hnodes : nodes ⊆ nodes')
    (hF : ∀ e' ∈ F, e' ∈ E ∨ e'.target ≤ e.target ∨ bound ≤ e'.target) :
    e.Closes nodes' F bound where
  header := by
    obtain ⟨n, hn, hheader⟩ := h.header
    exact ⟨n, hnodes hn, hheader⟩
  le_source := h.le_source
  source_lt := h.source_lt
  entered := by
    intro e' he' hlow hhigh
    rcases hF e' he' with he' | he' | he'
    · exact h.entered e' he' hlow hhigh
    · omega
    · omega

/-- All edges of the piece lead on to greater numbers, but for those that close a loop in it. -/
structure Fragment.Ordered (next : ℕ) (f : Fragment) : Prop where
  ahead : ∀ e ∈ f.edges, e.isBack = false → e.source < e.target
  back : ∀ e ∈ f.edges, e.isBack = true →
    ∃ bound ≤ next + f.nodes.length, e.Closes f.nodes f.edges bound

/-- A piece inside another one, whose other edges end outside of it. -/
lemma Fragment.Ordered.extend {next previous limit : ℕ} {f : Fragment} {nodes : List FlowNode}
    {F : List FlowEdge} (h : f.Ordered next) (hf : f.Placed next previous)
    (hnodes : f.nodes ⊆ nodes)
    (hF : ∀ e ∈ F, e ∈ f.edges ∨ e.target < next ∨ next + f.nodes.length ≤ e.target)
    (hlimit : next + f.nodes.length ≤ limit) :
    ∀ e ∈ f.edges, e.isBack = true → ∃ bound ≤ limit, e.Closes nodes F bound := by
  intro e he hback
  obtain ⟨bound, hbound, hcloses⟩ := h.back e he hback
  have htarget := (hf.edges e he).2
  refine ⟨bound, hbound.trans hlimit, hcloses.extend hnodes fun e' he' => ?_⟩
  rcases hF e' he' with he' | he' | he'
  · exact Or.inl he'
  · right; left; omega
  · right; right; omega

namespace Node

open Fragment (Placed Ordered)

lemma ordered_empty (next previous : ℕ) : Ordered next ⟨[], [], previous⟩ where
  ahead := by simp
  back := by simp

lemma ordered_step {next previous : ℕ} (hp : previous < next) (label description : String)
    (loc : Option Span) : Ordered next (step next previous label description loc) where
  ahead := by simp [step, hp]
  back := by simp [step, FlowEdge.isBack]

lemma ordered_andThen {next previous : ℕ} {f g : Fragment} (hf : Placed next previous f)
    (hg : Placed (next + f.nodes.length) f.leave g) (hf' : Ordered next f)
    (hg' : Ordered (next + f.nodes.length) g) : Ordered next (f.andThen g) where
  ahead := by
    intro e he
    rcases List.mem_append.mp he with he | he
    · exact hf'.ahead e he
    · exact hg'.ahead e he
  back := by
    intro e he
    simp only [Fragment.andThen, List.length_append] at he ⊢
    rcases List.mem_append.mp he with he | he
    · refine hf'.extend hf (List.subset_append_left _ _) (fun e he => ?_) (by omega) e he
      rcases List.mem_append.mp he with he | he
      · exact Or.inl he
      · exact Or.inr (Or.inr (hg.edges e he).2.1)
    · refine hg'.extend hg (List.subset_append_right _ _) (fun e he => ?_) (by omega) e he
      rcases List.mem_append.mp he with he | he
      · exact Or.inr (Or.inl (hf.edges e he).2.2)
      · exact Or.inl he

lemma ordered_decision {next previous : ℕ} {yes no : Fragment} (hp : previous < next)
    (loc : Option Span) (hy : Placed (next + 1) next yes)
    (hn : Placed (next + 1 + yes.nodes.length) next no) (hy' : Ordered (next + 1) yes)
    (hn' : Ordered (next + 1 + yes.nodes.length) no) :
    Ordered next (decision next previous loc yes no) := by
  set f := decision next previous loc yes no with hf
  have hlength : f.nodes.length = yes.nodes.length + no.nodes.length + 2 := length_nodes_decision
  have hyes : yes.nodes ⊆ f.nodes := fun n h => by simp [hf, decision, h]
  have hno : no.nodes ⊆ f.nodes := fun n h => by simp [hf, decision, h]
  have hly := hy.leave
  have hln := hn.leave
  constructor
  · intro e he hback
    rcases mem_edges_decision.mp he with rfl | he | he | rfl | rfl
    · exact hp
    · exact hy'.ahead e he hback
    · exact hn'.ahead e he hback
    · dsimp only
      omega
    · dsimp only
      omega
  · intro e he hback
    rcases mem_edges_decision.mp he with rfl | he | he | rfl | rfl
    · cases hback
    · refine hy'.extend hy hyes (fun e he => ?_) (by omega) e he hback
      rcases mem_edges_decision.mp he with rfl | he | he | rfl | rfl
      · right; left; dsimp only; omega
      · exact Or.inl he
      · have := hn.edges e he
        omega
      · right; right; dsimp only; omega
      · right; right; dsimp only; omega
    · refine hn'.extend hn hno (fun e he => ?_) (by omega) e he hback
      rcases mem_edges_decision.mp he with rfl | he | he | rfl | rfl
      · right; left; dsimp only; omega
      · have := hy.edges e he
        omega
      · exact Or.inl he
      · right; right; dsimp only; omega
      · right; right; dsimp only; omega
    · cases hback
    · cases hback

lemma ordered_loop {next previous : ℕ} {body : Fragment} (hp : previous < next)
    (loc : Option Span) {header : String × String} (footer : String × String)
    (hheader : header = whileHeader ∨ header = forHeader) (hb : Placed (next + 1) next body)
    (hb' : Ordered (next + 1) body) :
    Ordered next (loop next previous loc header footer body) := by
  set f := loop next previous loc header footer body with hf
  have hlength : f.nodes.length = body.nodes.length + 2 := length_nodes_loop
  have hbody : body.nodes ⊆ f.nodes := fun n h => by simp [hf, loop, h]
  have hl := hb.leave
  constructor
  · intro e he hback
    rcases mem_edges_loop.mp he with rfl | he | rfl | rfl
    · exact hp
    · exact hb'.ahead e he hback
    · cases hback
    · dsimp only
      omega
  · intro e he hback
    rcases mem_edges_loop.mp he with rfl | he | rfl | rfl
    · cases hback
    · refine hb'.extend hb hbody (fun e he => ?_) (by omega) e he hback
      rcases mem_edges_loop.mp he with rfl | he | rfl | rfl
      · right; left; dsimp only; omega
      · exact Or.inl he
      · right; left; dsimp only; omega
      · right; right; dsimp only; omega
    · -- the edge back to the header: the region is the header with the body
      refine ⟨next + 1 + body.nodes.length, by omega,
        ⟨⟨next, header.1, header.2, loc⟩, by simp [hf, loop], rfl, hheader⟩,
        by dsimp only; omega, by dsimp only; omega, ?_⟩
      intro e' he' hlow hhigh
      dsimp only at hlow ⊢
      rcases mem_edges_loop.mp he' with rfl | he' | rfl | rfl
      · exact absurd hlow (lt_irrefl _)
      · have := hb.edges e' he'
        omega
      · exact absurd hlow (lt_irrefl _)
      · exact absurd hhigh (lt_irrefl _)
    · cases hback

lemma flowAll_ordered {ns : List Tree} (ih : ∀ n ∈ ns, ∀ next previous, previous < next →
      Ordered next (flow next previous n)) :
    ∀ next previous, previous < next → Ordered next (flowAll next previous ns) := by
  induction ns with
  | nil => exact fun next previous _ => ordered_empty next previous
  | cons n ns ihs =>
    intro next previous hp
    have hplaced := flow_placed n next previous
    have hleave := hplaced.leave
    exact ordered_andThen hplaced (flowAll_placed (fun m _ => flow_placed m) _ _)
      (ih n (by simp) next previous hp) (ihs (fun m hm => ih m (by simp [hm])) _ _ (by omega))

/-- In the piece of a tree only the loops lead back. -/
lemma flow_ordered (t : Tree) :
    ∀ next previous, previous < next → Ordered next (t.flow next previous) := by
  induction t using Node.induction with
  | literal | name | binary => exact fun next previous _ => ordered_empty next previous
  | declare | assign | ret => exact fun next previous hp => ordered_step hp _ _ _
  | branch c b e loc ihc ihb ihe =>
    intro next previous hp
    have hy := flow_placed b (next + 1) next
    rcases e with _ | e
    · exact ordered_decision hp loc hy (placed_empty _ _) (ihb _ _ (by omega)) (ordered_empty _ _)
    · exact ordered_decision hp loc hy (flow_placed e _ _) (ihb _ _ (by omega))
        (ihe e rfl _ _ (by omega))
  | whileLoop c b loc ihc ihb =>
    intro next previous hp
    exact ordered_loop hp loc _ (Or.inl rfl) (flow_placed b _ _) (ihb _ _ (by omega))
  | forLoop b loc ihb =>
    intro next previous hp
    exact ordered_loop hp loc _ (Or.inr rfl) (flow_placed b _ _) (ihb _ _ (by omega))
  | block ns loc ih | program ns loc ih => exact flowAll_ordered ih

end Node

/-! ### The whole graph -/

namespace FlowGraph

/-- A graph whose loops are all entered at their headers. -/
structure Reducible (g : FlowGraph) : Prop where
  /-- The nodes have the numbers from zero on, in their order. -/
  numbered : g.nodes.map FlowNode.id = List.range g.nodes.length
  start : g.start = 0
  stop : g.stop + 1 = g.nodes.length
  /-- Every edge joins two nodes. -/
  joined : ∀ e ∈ g.edges, (∃ m ∈ g.nodes, m.id = e.source) ∧ ∃ n ∈ g.nodes, n.id = e.target
  /-- Every node lies on a way from the first to the last. -/
  passed : ∀ n ∈ g.nodes, ∃ ns, Walk g.edges g.stop g.start ns ∧ n.id ∈ g.start :: ns
  /-- The edges that close a loop are those that do not lead on to a greater number. -/
  back_iff : ∀ e ∈ g.edges, e.isBack ↔ e.target ≤ e.source
  /-- Without them no way leads from a node back to it. -/
  acyclic : ∀ a ns, Walk (g.edges.filter fun e => !e.isBack) a a ns → ns = []
  /-- They lead to the header of a loop, which every way from the first node passes. -/
  dominated : ∀ e ∈ g.edges, e.isBack → ∃ h ∈ g.nodes, h.id = e.target ∧ h.IsLoopHeader ∧
    ∀ ns, Walk g.edges e.source g.start ns → h.id ∈ g.start :: ns

variable {t : Tree} {e : FlowEdge} {n : FlowNode}

lemma start_ofTree (t : Tree) : (ofTree t).start = 0 := by rw [ofTree_eq]

lemma stop_ofTree (t : Tree) : (ofTree t).stop = 1 + (t.flow 1 0).nodes.length := by rw [ofTree_eq]

lemma mem_edges_ofTree : e ∈ (ofTree t).edges ↔
    e ∈ (t.flow 1 0).edges ∨ e = ⟨(t.flow 1 0).leave, (ofTree t).stop, none⟩ := by
  simp [ofTree_eq]

lemma mem_nodes_ofTree (h : n ∈ (ofTree t).nodes) :
    n.id = 0 ∨ n ∈ (t.flow 1 0).nodes ∨ n.id = (ofTree t).stop := by
  rw [ofTree_eq, List.mem_cons, List.mem_append, List.mem_singleton] at h
  rcases h with rfl | h | rfl
  · exact Or.inl rfl
  · exact Or.inr (Or.inl h)
  · exact Or.inr (Or.inr (stop_ofTree t).symm)

/-- Every node is reached from the first, and the last is reached from it. -/
lemma reaches_ofTree (h : n ∈ (ofTree t).nodes) :
    Reaches (ofTree t).edges 0 n.id ∧ Reaches (ofTree t).edges n.id (ofTree t).stop := by
  have hthreaded := Node.flow_threaded t 1 0
  have hedges : (t.flow 1 0).edges ⊆ (ofTree t).edges := fun e he => mem_edges_ofTree.mpr (.inl he)
  have last : Reaches (ofTree t).edges (t.flow 1 0).leave (ofTree t).stop :=
    .edge (e := ⟨(t.flow 1 0).leave, (ofTree t).stop, none⟩) (mem_edges_ofTree.mpr (.inr rfl))
  have through := (hthreaded.through.mono hedges).trans last
  rcases mem_nodes_ofTree h with h | h | h
  · exact ⟨h ▸ .refl _ _, h ▸ through⟩
  · exact ⟨(hthreaded.into n h).mono hedges, ((hthreaded.out n h).mono hedges).trans last⟩
  · exact ⟨h ▸ through, h ▸ .refl _ _⟩

lemma source_lt_target_ofTree (h : e ∈ (ofTree t).edges) (hback : e.isBack = false) :
    e.source < e.target := by
  have hleave := (Node.flow_placed t 1 0).leave
  rcases mem_edges_ofTree.mp h with h | rfl
  · exact (Node.flow_ordered t 1 0 (by omega)).ahead e h hback
  · rw [stop_ofTree]
    dsimp only
    omega

lemma closes_ofTree (h : e ∈ (ofTree t).edges) (hback : e.isBack = true) :
    0 < e.target ∧ ∃ bound, e.Closes (ofTree t).nodes (ofTree t).edges bound := by
  have hplaced := Node.flow_placed t 1 0
  have hnodes : (t.flow 1 0).nodes ⊆ (ofTree t).nodes := fun n hn => by simp [ofTree_eq, hn]
  -- the one edge outside the piece leads to the last node
  have hpast : ∀ e ∈ (ofTree t).edges, e ∈ (t.flow 1 0).edges ∨ e.target < 1 ∨
      1 + (t.flow 1 0).nodes.length ≤ e.target := by
    intro e he
    rcases mem_edges_ofTree.mp he with he | rfl
    · exact Or.inl he
    · exact Or.inr (Or.inr (stop_ofTree t).ge)
  rcases mem_edges_ofTree.mp h with h | rfl
  · have hordered := Node.flow_ordered t 1 0 (by omega)
    obtain ⟨bound, -, hcloses⟩ := hordered.extend hplaced hnodes hpast le_rfl e h hback
    exact ⟨(hplaced.edges e h).2.1, bound, hcloses⟩
  · cases hback

/-- Every way from the first node to the source of an edge that closes a loop passes its target. -/
lemma mem_walk_of_closes {bound : ℕ} {ns : List ℕ} (hpos : 0 < e.target)
    (h : e.Closes (ofTree t).nodes (ofTree t).edges bound)
    (hwalk : Walk (ofTree t).edges e.source (ofTree t).start ns) : e.target ∈ ns := by
  refine hwalk.mem_of_entered (W := {n | e.target ≤ n ∧ n < bound}) ?_ ?_ ⟨h.le_source, h.source_lt⟩
  · rintro e' he' ⟨hlow, hhigh⟩
    rcases hlow.eq_or_lt with heq | hlt
    · exact Or.inl heq.symm
    · exact Or.inr (h.entered e' he' hlt hhigh)
  · rw [start_ofTree]
    rintro ⟨hlow, -⟩
    omega

/-- **The shape of the graph**: for every tree the graph is one in which every node is passed on
some way from the first to the last and every loop is entered at its header alone. -/
theorem reducible_ofTree (t : Tree) : (ofTree t).Reducible where
  numbered := by rw [ofTree_numbered, List.range_eq_range']
  start := start_ofTree t
  stop := by simp [ofTree_eq, Nat.add_comm]
  joined := by
    intro e he
    have hplaced := Node.flow_placed t 1 0
    have hleave := hplaced.leave
    have hbounds : e.source < (t.flow 1 0).nodes.length + 2 ∧
        e.target < (t.flow 1 0).nodes.length + 2 := by
      rcases mem_edges_ofTree.mp he with he | rfl
      · have := hplaced.edges e he
        omega
      · rw [stop_ofTree]
        dsimp only
        omega
    exact ⟨exists_id_ofTree hbounds.1, exists_id_ofTree hbounds.2⟩
  passed := by
    intro n hn
    obtain ⟨hinto, hout⟩ := reaches_ofTree hn
    rw [start_ofTree]
    exact hinto.exists_walk hout
  back_iff := by
    intro e he
    cases hback : e.isBack with
    | true =>
      obtain ⟨-, bound, hcloses⟩ := closes_ofTree he hback
      simpa using hcloses.le_source
    | false => simpa using source_lt_target_ofTree he hback
  acyclic := by
    intro a ns hwalk
    have hlength := hwalk.length_le_of_ahead fun e he => by
      obtain ⟨he, hback⟩ := List.mem_filter.mp he
      exact source_lt_target_ofTree he (by simpa using hback)
    exact List.length_eq_zero_iff.mp (by omega)
  dominated := by
    intro e he hback
    obtain ⟨hpos, bound, hcloses⟩ := closes_ofTree he hback
    obtain ⟨h, hmem, hid, hheader⟩ := hcloses.header
    refine ⟨h, hmem, hid, hheader, fun ns hwalk => ?_⟩
    rw [hid]
    exact List.mem_cons_of_mem _ (mem_walk_of_closes hpos hcloses hwalk)

end FlowGraph

end Primer
