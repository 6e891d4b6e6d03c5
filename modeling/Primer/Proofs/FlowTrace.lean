import Mathlib.Computability.Language
import Primer.Proofs.FlowPlace

/-!
The graph of a program denotes the program.

What is read along the walks from the first to the last point of the graph, as rows of labels with
their places, is exactly what the tree says: statements one after the other, a decision through
one of its ways, a loop through its body any number of times. Both halves follow from the way
pieces are put together. Two pieces share at most one point, and no edge leads back over it, so a
walk through both falls apart into a walk through each.
-/

namespace Primer

open Computability

/-! ### Walks along a row of edges -/

/-- The numbers met on a way to `goal`, without the one it starts from. -/
inductive Walk (E : List FlowEdge) (goal : ℕ) : ℕ → List ℕ → Prop
  | stay : Walk E goal goal []
  | step {e : FlowEdge} {ns : List ℕ} (he : e ∈ E) (rest : Walk E goal e.target ns) :
    Walk E goal e.source (e.target :: ns)

def walks (E : List FlowEdge) (a b : ℕ) : Language ℕ := {ns | Walk E b a ns}

namespace Walk

variable {E F : List FlowEdge} {a b c : ℕ} {ns ms : List ℕ}

lemma append (h : Walk E b a ns) (h' : Walk E c b ms) : Walk E c a (ns ++ ms) := by
  induction h with
  | stay => exact h'
  | step he _ ih => exact .step he ih

lemma mono (h : Walk E b a ns) (hEF : E ⊆ F) : Walk F b a ns := by
  induction h with
  | stay => exact .stay
  | step he _ ih => exact .step (hEF he) ih

/-- A walk inside a region from which only some of the edges lead on. -/
lemma within {W : Set ℕ} (h : Walk E b a ns) (ha : a ∈ W)
    (hW : ∀ e ∈ E, e.source ∈ W → e ∈ F ∧ e.target ∈ W) : Walk F b a ns := by
  induction h with
  | stay => exact .stay
  | step he _ ih => exact .step (hW _ he ha).1 (ih (hW _ he ha).2)

end Walk

lemma walks_congr {E F : List FlowEdge} (h : ∀ e, e ∈ E ↔ e ∈ F) (a b : ℕ) :
    walks E a b = walks F a b := by
  ext ns
  constructor
  · exact fun hw => Walk.mono hw fun e he => (h e).mp he
  · exact fun hw => Walk.mono hw fun e he => (h e).mpr he

lemma walks_nil (a : ℕ) : walks [] a a = 1 := by
  ext ns
  constructor
  · rintro (_ | ⟨he, _⟩)
    · rfl
    · simp at he
  · rintro rfl
    exact Walk.stay

/-- **One piece after another.** All edges of the second piece start at `b` or in the region `W`
and end in `W`, which the first piece never touches. A walk to a point of `W` goes through the
first piece to `b` and then through the second. -/
lemma walks_append {E F : List FlowEdge} {W : Set ℕ} {a b c : ℕ}
    (hE : ∀ e ∈ E, e.source ∉ W ∧ e.target ∉ W)
    (hF : ∀ e ∈ F, (e.source = b ∨ e.source ∈ W) ∧ e.target ∈ W) (ha : a ∉ W) (hc : c ∈ W) :
    walks (E ++ F) a c = walks E a b * walks F b c := by
  ext ns
  constructor
  · intro h
    change Walk (E ++ F) c a ns at h
    induction h with
    | stay => exact absurd hc ha
    | @step e ns he rest ih =>
      rcases List.mem_append.mp he with he | he
      · obtain ⟨xs, hxs, ys, hys, rfl⟩ := ih (hE e he).2
        exact ⟨e.target :: xs, Walk.step he hxs, ys, hys, rfl⟩
      · -- the first edge of the second piece: the walk stands at `b` and never comes back
        obtain ⟨rfl | hb, ht⟩ := hF e he
        · refine ⟨[], Walk.stay, e.target :: ns, Walk.step he (rest.within ht ?_), rfl⟩
          intro e' he' hs
          rcases List.mem_append.mp he' with he' | he'
          · exact absurd hs (hE e' he').1
          · exact ⟨he', (hF e' he').2⟩
        · exact absurd hb ha
  · rintro ⟨xs, hxs, ys, hys, rfl⟩
    exact (Walk.mono hxs (List.subset_append_left E F)).append
      (Walk.mono hys (List.subset_append_right E F))

/-- **Two pieces beside each other**, from one point to another. The inner points of each are no
business of the other. -/
lemma walks_beside {E F : List FlowEdge} {V W : Set ℕ} {a c : ℕ}
    (hE : ∀ e ∈ E, (e.source = a ∨ e.source ∈ V) ∧ (e.target = c ∨ e.target ∈ V))
    (hF : ∀ e ∈ F, (e.source = a ∨ e.source ∈ W) ∧ (e.target = c ∨ e.target ∈ W))
    (hVW : ∀ n ∈ V, n ∉ W) (hV : a ∉ V ∧ c ∉ V) (hW : a ∉ W ∧ c ∉ W) (hac : a ≠ c) :
    walks (E ++ F) a c = walks E a c + walks F a c := by
  ext ns
  constructor
  · rintro (_ | ⟨he, rest⟩)
    · exact absurd rfl hac
    · rename_i e ns
      rcases List.mem_append.mp he with he | he
      · left
        refine Walk.step he (rest.within (W := {n | n = c ∨ n ∈ V}) (hE e he).2 ?_)
        intro e' he' hs
        have hs' : e'.source = c ∨ e'.source ∈ V := hs
        rcases List.mem_append.mp he' with he' | he'
        · exact ⟨he', (hE e' he').2⟩
        · have := (hF e' he').1
          grind
      · right
        refine Walk.step he (rest.within (W := {n | n = c ∨ n ∈ W}) (hF e he).2 ?_)
        intro e' he' hs
        have hs' : e'.source = c ∨ e'.source ∈ W := hs
        rcases List.mem_append.mp he' with he' | he'
        · have := (hE e' he').1
          grind
        · exact ⟨he', (hF e' he').2⟩
  · rintro (h | h)
    · exact Walk.mono h (List.subset_append_left E F)
    · exact Walk.mono h (List.subset_append_right E F)

/-- **A piece closed to a circle.** An edge leads from the end of a piece back to its start, to
which no other edge leads. -/
lemma walks_circle {E : List FlowEdge} {a b : ℕ} (label : Option String)
    (hE : ∀ e ∈ E, e.target ≠ a) :
    walks (E ++ [⟨b, a, label⟩]) a a = (walks E a b * {[a]})∗ := by
  have more : walks E a b * {[a]} * (walks E a b * {[a]})∗ ≤ (walks E a b * {[a]})∗ :=
    mul_kstar_le_kstar
  -- a walk to the start either is at its end or takes the edge back
  have split : ∀ {x ns}, Walk (E ++ [⟨b, a, label⟩]) a x ns →
      (x = a ∧ ns = []) ∨ ns ∈ walks E x b * {[a]} * (walks E a b * {[a]})∗ := by
    intro x ns h
    induction h with
    | stay => exact Or.inl ⟨rfl, rfl⟩
    | @step e ns he rest ih =>
      right
      rcases List.mem_append.mp he with he | he
      · rcases ih with ⟨ht, -⟩ | ⟨xs, ⟨us, hus, vs, hvs, rfl⟩, ys, hys, rfl⟩
        · exact absurd ht (hE e he)
        · exact ⟨_, ⟨e.target :: us, Walk.step he hus, vs, hvs, rfl⟩, ys, hys, rfl⟩
      · obtain rfl : e = ⟨b, a, label⟩ := by simpa using he
        refine ⟨_, ⟨[], Walk.stay, [a], rfl, rfl⟩, ns, ?_, rfl⟩
        rcases ih with ⟨-, rfl⟩ | h
        · exact Language.nil_mem_kstar _
        · exact more h
  ext ns
  constructor
  · intro h
    rcases split h with ⟨-, rfl⟩ | h
    · exact Language.nil_mem_kstar _
    · exact more h
  · intro h
    obtain ⟨rounds, rfl, hr⟩ := Language.mem_kstar.mp h
    clear h
    induction rounds with
    | nil => exact Walk.stay
    | cons r rounds ih =>
      obtain ⟨xs, hxs, ys, rfl, rfl⟩ := hr r (by simp)
      have back : Walk (E ++ [⟨b, a, label⟩]) a b [a] :=
        Walk.step (e := ⟨b, a, label⟩) (by simp) .stay
      exact ((Walk.mono hxs (List.subset_append_left _ _)).append back).append
        (ih fun y hy => hr y (by simp [hy]))

/-- **A single way in.** The only edge at `a` is the one that leaves it. -/
lemma walks_enter {F : List FlowEdge} {a b c : ℕ} (label : Option String)
    (hF : ∀ e ∈ F, e.source ≠ a ∧ e.target ≠ a) (hb : b ≠ a) (hc : c ≠ a) :
    walks (⟨a, b, label⟩ :: F) a c = {[b]} * walks F b c := by
  ext ns
  constructor
  · rintro (_ | ⟨he, rest⟩)
    · exact absurd rfl hc
    · rename_i e ns
      rcases List.mem_cons.mp he with heq | he
      · have ht : e.target = b := congrArg FlowEdge.target heq
        rw [ht] at rest ⊢
        refine ⟨[b], rfl, ns, rest.within (W := {n | n ≠ e.source}) hb ?_, rfl⟩
        intro e' he' hs
        rcases List.mem_cons.mp he' with rfl | he'
        · exact absurd rfl hs
        · exact ⟨he', (hF e' he').2⟩
      · exact absurd rfl (hF e he).1
  · rintro ⟨xs, rfl, ys, hys, rfl⟩
    exact Walk.step (e := ⟨a, b, label⟩) (by simp) (Walk.mono hys (List.subset_cons_self _ _))

lemma walks_single {a b : ℕ} (label : Option String) (hab : b ≠ a) :
    walks [⟨a, b, label⟩] a b = {[b]} := by
  rw [walks_enter label (by simp) hab hab, walks_nil, mul_one]

/-- A piece with one more edge behind it, to a point that it does not touch. -/
lemma walks_leave {E : List FlowEdge} {a b c : ℕ} (label : Option String)
    (hE : ∀ e ∈ E, e.source ≠ c ∧ e.target ≠ c) (ha : a ≠ c) (hb : b ≠ c) :
    walks (E ++ [⟨b, c, label⟩]) a c = walks E a b * {[c]} := by
  rw [walks_append (W := {c}) (b := b) hE (by simp) ha rfl, walks_single label hb.symm]

/-! ### Traces -/

/-- A point of a graph as a trace shows it. -/
abbrev Mark := String × Option Span

def FlowNode.mark (n : FlowNode) : Mark := (n.label, n.location)

namespace Node

mutual

def trace : Tree → Language Mark
  | .declare t x _ loc => {[(t ++ " " ++ x ++ " = ...", loc)]}
  | .assign x _ loc => {[(x ++ " = ...", loc)]}
  | .ret _ loc => {[("Return", loc)]}
  | .branch _ b none loc => {[("if (...)", loc)]} * (b.trace + 1) * {[("End If", none)]}
  | .branch _ b (some e) loc =>
    {[("if (...)", loc)]} * (b.trace + e.trace) * {[("End If", none)]}
  | .whileLoop _ b loc =>
    {[("while (...)", loc)]} * (b.trace * {[("while (...)", loc)]})∗ * {[("End While", none)]}
  | .forLoop b loc =>
    {[("for (...)", loc)]} * (b.trace * {[("for (...)", loc)]})∗ * {[("End For", none)]}
  | .block ns _ => traceAll ns
  | .program ns _ => traceAll ns
  | _ => 1

def traceAll : List Tree → Language Mark
  | [] => 1
  | n :: ns => n.trace * traceAll ns

end

end Node

lemma map_single {α β : Type} (f : α → β) (a : α) : Language.map f {[a]} = {[f a]} := by
  ext ns
  exact ⟨fun ⟨_, h, e⟩ => by rw [← e, h]; rfl, fun h => ⟨[a], rfl, h.symm⟩⟩

/-- What is read along the walks through a piece, if `read` shows the mark of each of its nodes. -/
def Fragment.Denotes (previous : ℕ) (f : Fragment) (L : Language Mark) : Prop :=
  ∀ read : ℕ → Mark, (∀ n ∈ f.nodes, read n.id = n.mark) →
    (walks f.edges previous f.leave).map read = L

namespace Node

open Fragment (Placed Denotes)

lemma denotes_empty (previous : ℕ) : Denotes previous ⟨[], [], previous⟩ 1 := by
  intro read _
  rw [walks_nil, map_one]

lemma denotes_step {next previous : ℕ} (h : previous < next) (label description : String)
    (loc : Option Span) :
    Denotes previous (step next previous label description loc) {[(label, loc)]} := by
  intro read hread
  rw [step, walks_single _ (by omega), map_single]
  rw [hread ⟨next, label, description, loc⟩ (by simp [step])]
  rfl

lemma denotes_andThen {next previous : ℕ} {f g : Fragment} {L M : Language Mark}
    (hp : previous < next) (hf : Placed next previous f)
    (hg : Placed (next + f.nodes.length) f.leave g)
    (hL : Denotes previous f L) (hM : Denotes f.leave g M) :
    Denotes previous (f.andThen g) (L * M) := by
  intro read hread
  simp only [Fragment.andThen, List.mem_append] at hread ⊢
  have hL := hL read fun n hn => hread n (Or.inl hn)
  have hM := hM read fun n hn => hread n (Or.inr hn)
  rcases hg.leave with ⟨hleave, -, hedges⟩ | hleave
  · -- the second piece is empty
    rw [hleave, hedges, walks_nil, map_one] at hM
    rw [hleave, hedges, List.append_nil, hL, ← hM, mul_one]
  · rw [walks_append (W := {n | next + f.nodes.length ≤ n}) (b := f.leave), map_mul, hL, hM]
    · intro e he
      have := hf.edges e he
      simp only [Set.mem_ofPred_eq]
      omega
    · intro e he
      have := hg.edges e he
      simp only [Set.mem_ofPred_eq]
      omega
    · simp only [Set.mem_ofPred_eq]
      omega
    · exact hleave.1

lemma denotes_decision {next previous : ℕ} {yes no : Fragment} {L M : Language Mark}
    (hp : previous < next) (loc : Option Span) (hy : Placed (next + 1) next yes)
    (hn : Placed (next + 1 + yes.nodes.length) next no) (hL : Denotes next yes L)
    (hM : Denotes next no M) :
    Denotes previous (decision next previous loc yes no)
      ({[("if (...)", loc)]} * (L + M) * {[("End If", none)]}) := by
  intro read hread
  simp only [decision, List.mem_cons, List.mem_append, List.not_mem_nil, or_false] at hread ⊢
  set merge := next + 1 + yes.nodes.length + no.nodes.length with hmerge
  have hL := hL read fun n hn => hread n (Or.inr (Or.inl (Or.inl hn)))
  have hM := hM read fun n hn => hread n (Or.inr (Or.inl (Or.inr hn)))
  have hif : read next = ("if (...)", loc) := hread _ (Or.inl rfl)
  have hend : read merge = ("End If", none) := hread _ (Or.inr (Or.inr rfl))
  have hly := hy.leave
  have hln := hn.leave
  -- the two ways, each with its edge to the point where they meet
  have ways : walks (yes.edges ++ no.edges ++ [⟨yes.leave, merge, none⟩, ⟨no.leave, merge, none⟩])
      next merge = walks yes.edges next yes.leave * {[merge]} +
        walks no.edges next no.leave * {[merge]} := by
    rw [walks_congr (F := (yes.edges ++ [⟨yes.leave, merge, none⟩]) ++
      (no.edges ++ [⟨no.leave, merge, none⟩])) (by simp; tauto)]
    rw [walks_beside (V := {n | next + 1 ≤ n ∧ n < next + 1 + yes.nodes.length})
      (W := {n | next + 1 + yes.nodes.length ≤ n ∧ n < merge}), walks_leave, walks_leave]
    · intro e he
      have := hn.edges e he
      omega
    · omega
    · omega
    · intro e he
      have := hy.edges e he
      omega
    · omega
    · omega
    · intro e he
      simp only [List.mem_append, List.mem_singleton, Set.mem_ofPred_eq] at he ⊢
      rcases he with he | rfl
      · have := hy.edges e he
        omega
      · dsimp only
        omega
    · intro e he
      simp only [List.mem_append, List.mem_singleton, Set.mem_ofPred_eq] at he ⊢
      rcases he with he | rfl
      · have := hn.edges e he
        omega
      · dsimp only
        omega
    · simp only [Set.mem_ofPred_eq]
      omega
    · simp only [Set.mem_ofPred_eq]
      omega
    · simp only [Set.mem_ofPred_eq]
      omega
    · omega
  rw [walks_enter, ways]
  · simp only [map_mul, map_add, map_single, hL, hM, hif, hend]
    rw [mul_assoc, add_mul]
  · intro e he
    simp only [List.mem_append, List.mem_cons, List.not_mem_nil, or_false] at he
    rcases he with (he | he) | rfl | rfl
    · have := hy.edges e he
      omega
    · have := hn.edges e he
      omega
    · dsimp only
      omega
    · dsimp only
      omega
  · omega
  · omega

lemma denotes_loop {next previous : ℕ} {body : Fragment} {L : Language Mark}
    (hp : previous < next) (loc : Option Span) (header footer : String × String)
    (hb : Placed (next + 1) next body) (hL : Denotes next body L) :
    Denotes previous (loop next previous loc header footer body)
      ({[(header.1, loc)]} * (L * {[(header.1, loc)]})∗ * {[(footer.1, none)]}) := by
  intro read hread
  simp only [loop, List.mem_cons, List.mem_append, List.not_mem_nil, or_false] at hread ⊢
  set after := next + 1 + body.nodes.length with hafter
  have hL := hL read fun n hn => hread n (Or.inr (Or.inl hn))
  have hhead : read next = (header.1, loc) := hread _ (Or.inl rfl)
  have hfoot : read after = (footer.1, none) := hread _ (Or.inr (Or.inr rfl))
  have hl := hb.leave
  have rounds : walks (body.edges ++ [⟨body.leave, next, some FlowEdge.loopLabel⟩,
      ⟨next, after, some FlowEdge.exitLabel⟩]) next after =
        (walks body.edges next body.leave * {[next]})∗ * {[after]} := by
    rw [show body.edges ++ [⟨body.leave, next, some FlowEdge.loopLabel⟩,
      ⟨next, after, some FlowEdge.exitLabel⟩] =
        body.edges ++ [⟨body.leave, next, some FlowEdge.loopLabel⟩] ++
          [⟨next, after, some FlowEdge.exitLabel⟩] by simp]
    rw [walks_leave, walks_circle]
    · intro e he
      have := hb.edges e he
      omega
    · intro e he
      simp only [List.mem_append, List.mem_singleton] at he
      rcases he with he | rfl
      · have := hb.edges e he
        omega
      · dsimp only
        omega
    · omega
    · omega
  rw [walks_enter, rounds]
  · simp only [map_mul, Language.map_kstar, map_single, hL, hhead, hfoot]
    rw [mul_assoc]
  · intro e he
    simp only [List.mem_append, List.mem_cons, List.not_mem_nil, or_false] at he
    rcases he with he | rfl | rfl
    · have := hb.edges e he
      omega
    · dsimp only
      omega
    · dsimp only
      omega
  · omega
  · omega

lemma flowAll_denotes {ns : List Tree} (ih : ∀ n ∈ ns, ∀ next previous, previous < next →
      Denotes previous (flow next previous n) n.trace) :
    ∀ next previous, previous < next →
      Denotes previous (flowAll next previous ns) (traceAll ns) := by
  induction ns with
  | nil => exact fun _ previous _ => denotes_empty previous
  | cons n ns ihs =>
    intro next previous hp
    have hplaced := flow_placed n next previous
    have hleave := hplaced.leave
    exact denotes_andThen hp hplaced (flowAll_placed (fun m _ => flow_placed m) _ _)
      (ih n (by simp) next previous hp)
      (ihs (fun m hm => ih m (by simp [hm])) _ _ (by omega))

/-- The piece of a tree denotes the trace of the tree. -/
lemma flow_denotes (t : Tree) : ∀ next previous, previous < next →
    Denotes previous (t.flow next previous) t.trace := by
  induction t using Node.induction with
  | literal | name | binary => exact fun _ previous _ => denotes_empty previous
  | declare | assign | ret => exact fun next previous hp => denotes_step hp _ _ _
  | branch c b e loc ihc ihb ihe =>
    intro next previous hp
    have hy := flow_placed b (next + 1) next
    rcases e with _ | e
    · exact denotes_decision hp loc hy (placed_empty _ _) (ihb _ _ (by omega)) (denotes_empty _)
    · exact denotes_decision hp loc hy (flow_placed e _ _) (ihb _ _ (by omega))
        (ihe e rfl _ _ (by omega))
  | whileLoop c b loc ihc ihb =>
    intro next previous hp
    exact denotes_loop hp loc whileHeader whileFooter (flow_placed b _ _) (ihb _ _ (by omega))
  | forLoop b loc ihb =>
    intro next previous hp
    exact denotes_loop hp loc forHeader forFooter (flow_placed b _ _) (ihb _ _ (by omega))
  | block ns loc ih | program ns loc ih => exact flowAll_denotes ih

end Node

/-! ### The whole graph -/

namespace FlowGraph

variable (g : FlowGraph)

def Joined (m n : FlowNode) : Prop := ∃ e ∈ g.edges, e.source = m.id ∧ e.target = n.id

/-- A row of nodes from the first to the last point of a graph, each joined to the next. -/
structure IsWalk (ns : List FlowNode) : Prop where
  nodes : ∀ n ∈ ns, n ∈ g.nodes
  joined : ns.IsChain g.Joined
  first : ns.head?.map FlowNode.id = some g.start
  last : ns.getLast?.map FlowNode.id = some g.stop

def readings : Language Mark := {row | ∃ ns, g.IsWalk ns ∧ row = ns.map FlowNode.mark}

variable {g}

lemma walk_of_chain {goal : ℕ} : ∀ {ns : List FlowNode} {n : FlowNode},
    (n :: ns).IsChain g.Joined → (n :: ns).getLast?.map FlowNode.id = some goal →
      Walk g.edges goal n.id (ns.map FlowNode.id)
  | [], n, _, hlast => by
    obtain rfl : n.id = goal := by simpa using hlast
    exact .stay
  | m :: ns, n, hchain, hlast => by
    obtain ⟨⟨e, he, hs, ht⟩, hchain⟩ := List.isChain_cons_cons.mp hchain
    have rest := walk_of_chain hchain (by simpa [List.getLast?_cons_cons] using hlast)
    rw [List.map_cons, ← hs, ← ht]
    exact .step he (ht ▸ rest)

lemma chain_of_walk {goal a : ℕ} {ids : List ℕ}
    (hclosed : ∀ e ∈ g.edges, ∃ n ∈ g.nodes, n.id = e.target) (h : Walk g.edges goal a ids) :
    ∀ n : FlowNode, n.id = a → ∃ ns, ns.map FlowNode.id = ids ∧ (∀ m ∈ ns, m ∈ g.nodes) ∧
      (n :: ns).IsChain g.Joined ∧ (n :: ns).getLast?.map FlowNode.id = some goal := by
  induction h with
  | stay =>
    intro n hn
    exact ⟨[], rfl, by simp, List.isChain_singleton n, by simpa using hn⟩
  | @step e ids he rest ih =>
    intro n hn
    obtain ⟨m, hm, hid⟩ := hclosed e he
    obtain ⟨ns, hids, hnodes, hchain, hlast⟩ := ih m hid
    refine ⟨m :: ns, by simp [hid, hids], by simpa [hm] using hnodes, ?_, ?_⟩
    · exact List.isChain_cons_cons.mpr ⟨⟨e, he, hn.symm, hid.symm⟩, hchain⟩
    · simpa [List.getLast?_cons_cons] using hlast

/-- Readings are walks along the edges, with each number shown as the mark of its node. -/
lemma readings_eq {read : ℕ → Mark} (hread : ∀ n ∈ g.nodes, read n.id = n.mark)
    (hclosed : ∀ e ∈ g.edges, ∃ n ∈ g.nodes, n.id = e.target)
    (hstart : ∃ n ∈ g.nodes, n.id = g.start) :
    g.readings = {[read g.start]} * (walks g.edges g.start g.stop).map read := by
  ext row
  constructor
  · rintro ⟨ns, ⟨hnodes, hjoined, hfirst, hlast⟩, rfl⟩
    rcases ns with _ | ⟨n, ns⟩
    · simp at hfirst
    · have hn : n.id = g.start := by simpa using hfirst
      have hmap : ns.map FlowNode.mark = (ns.map FlowNode.id).map read := by
        rw [List.map_map]
        exact List.map_congr_left fun m hm => (hread m (hnodes m (by simp [hm]))).symm
      have hwalk : ns.map FlowNode.id ∈ walks g.edges g.start g.stop :=
        hn ▸ walk_of_chain hjoined hlast
      refine ⟨[read g.start], rfl, _, ⟨_, hwalk, rfl⟩, ?_⟩
      rw [List.map_cons, hmap, ← hread n (hnodes n (by simp)), hn]
      rfl
  · rintro ⟨-, rfl, -, ⟨ids, hwalk, rfl⟩, rfl⟩
    obtain ⟨n, hmem, hn⟩ := hstart
    obtain ⟨ns, hids, hnodes, hjoined, hlast⟩ := chain_of_walk hclosed hwalk n hn
    refine ⟨n :: ns, ⟨by simpa [hmem] using hnodes, hjoined, by simpa using hn, hlast⟩, ?_⟩
    have hmap : ns.map FlowNode.mark = ids.map read := by
      rw [← hids, List.map_map]
      exact List.map_congr_left fun m hm => (hread m (hnodes m hm)).symm
    rw [List.map_cons, hmap, ← hread n hmem, hn]
    rfl

/-- Distinct numbers can be read as the marks of their nodes. -/
lemma exists_read {ns : List FlowNode} (h : (ns.map FlowNode.id).Nodup) :
    ∃ read : ℕ → Mark, ∀ n ∈ ns, read n.id = n.mark := by
  classical
  refine ⟨fun i => if hi : ∃ n ∈ ns, n.id = i then hi.choose.mark else default, ?_⟩
  intro n hn
  have hi : ∃ m ∈ ns, m.id = n.id := ⟨n, hn, rfl⟩
  simp only [dif_pos hi]
  congr 1
  exact List.inj_on_of_nodup_map h hi.choose_spec.1 hn hi.choose_spec.2

lemma ofTree_eq (t : Tree) :
    ofTree t =
      { nodes := ⟨0, "Start", "Program Begin", none⟩ :: ((t.flow 1 0).nodes ++
          [⟨1 + (t.flow 1 0).nodes.length, "End", "Program End", none⟩])
        edges := (t.flow 1 0).edges ++
          [⟨(t.flow 1 0).leave, 1 + (t.flow 1 0).nodes.length, none⟩]
        start := 0
        stop := 1 + (t.flow 1 0).nodes.length } := by
  simp [ofTree, extend, empty]

/-- The nodes of a graph have the numbers from zero on. -/
lemma ofTree_numbered (t : Tree) :
    (ofTree t).nodes.map FlowNode.id = List.range' 0 (ofTree t).nodes.length := by
  rw [ofTree_eq, List.map_cons, List.map_append, (Node.flow_placed t 1 0).numbered,
    List.length_cons, List.length_append, List.range'_succ, ← List.range'_append_1]
  rfl

lemma exists_id_ofTree {t : Tree} {i : ℕ} (hi : i < (t.flow 1 0).nodes.length + 2) :
    ∃ n ∈ (ofTree t).nodes, n.id = i := by
  have hmem : i ∈ (ofTree t).nodes.map FlowNode.id := by
    rw [ofTree_numbered, List.mem_range'_1, ofTree_eq]
    simp only [List.length_cons, List.length_append, List.length_nil]
    omega
  simpa using hmem

/-- **The graph of a tree denotes the tree**: what can be read along its walks is the trace of the
tree between the marks of its two ends. -/
theorem readings_ofTree (t : Tree) :
    (ofTree t).readings = {[("Start", none)]} * t.trace * {[("End", none)]} := by
  have hplaced := Node.flow_placed t 1 0
  have hleave := hplaced.leave
  obtain ⟨read, hread⟩ : ∃ read : ℕ → Mark, ∀ n ∈ (ofTree t).nodes, read n.id = n.mark :=
    exists_read (by rw [ofTree_numbered]; exact List.nodup_range')
  have hclosed : ∀ e ∈ (ofTree t).edges, ∃ n ∈ (ofTree t).nodes, n.id = e.target := by
    intro e he
    refine exists_id_ofTree ?_
    rw [ofTree_eq, List.mem_append, List.mem_singleton] at he
    rcases he with he | rfl
    · have := hplaced.edges e he
      omega
    · dsimp only
      omega
  rw [readings_eq hread hclosed (exists_id_ofTree (by simp [ofTree_eq]))]
  simp only [ofTree_eq, List.mem_cons, List.mem_append, List.not_mem_nil, or_false] at hread ⊢
  have hstart : read 0 = ("Start", none) := hread _ (Or.inl rfl)
  have hstop : read (1 + (t.flow 1 0).nodes.length) = ("End", none) :=
    hread _ (Or.inr (Or.inr rfl))
  have hbody := Node.flow_denotes t 1 0 (by omega) read fun n hn => hread n (Or.inr (Or.inl hn))
  rw [walks_leave, map_mul, map_single, hbody, hstart, hstop, mul_assoc]
  · intro e he
    have := hplaced.edges e he
    omega
  · omega
  · omega

end FlowGraph

end Primer
