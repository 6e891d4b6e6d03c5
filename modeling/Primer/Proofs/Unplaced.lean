import Mathlib.Tactic
import Primer.Proofs.Decisions
import Primer.Proofs.FailFast
import Primer.Proofs.Passes

/-!
Places do not influence verdicts.

Every view and every check of a tree without places is that of the tree itself, with the places left
out of what it gives. So two trees that differ only in their places get the same verdict: the
verdict of a report is all that it says, apart from places and from the texts that speak of them.
-/

namespace Primer

namespace Node

/-! ### Parts of a tree without places -/

section

variable {α : Type}

lemma bareAll_eq_map (ns : List (Node α)) : bareAll ns = ns.map bare := by
  induction ns with
  | nil => rfl
  | cons n ns ih => rw [bareAll, ih, List.map_cons]

lemma bare_declare (t x : α) (v : Option (Node α)) (loc : Option Span) :
    (declare t x v loc).bare = .declare t x (v.map bare) none := by
  cases v <;> rfl

lemma bare_branch (c b : Node α) (e : Option (Node α)) (loc : Option Span) :
    (branch c b e loc).bare = .branch c.bare b.bare (e.map bare) none := by
  cases e <;> rfl

lemma bare_ret (v : Option (Node α)) (loc : Option Span) :
    (ret v loc).bare = .ret (v.map bare) none := by
  cases v <;> rfl

lemma children_bare (n : Node α) : n.bare.children = n.children.map bare := by
  cases n with
  | declare t x v => cases v <;> rfl
  | branch c b e => cases e <;> rfl
  | ret v => cases v <;> rfl
  | block ns | program ns => exact bareAll_eq_map ns
  | _ => rfl

lemma walk_bare (n : Node α) : n.bare.walk = n.walk.map bare := by
  induction n using childInduction with
  | step n ih =>
    rw [walk_eq, walk_eq, children_bare, List.map_cons, List.map_flatMap, List.flatMap_map]
    simp only [List.flatMap_def, List.map_congr_left ih]

end

lemma inner_bare (n : Tree) : n.bare.inner = n.inner.map bare := by
  cases n with
  | declare t x v => cases v <;> rfl
  | branch c b e => cases e <;> rfl
  | ret v => cases v <;> rfl
  | block ns | program ns => exact bareAll_eq_map ns
  | _ => rfl

lemma isControl_bare (n : Tree) : n.bare.isControl = n.isControl := by
  cases n <;> simp only [bare, bare_declare, bare_branch, bare_ret, isControl]

end Node

/-! ### Views -/

def SymbolEntry.unplaced (s : SymbolEntry) : SymbolEntry := { s with line := 0 }

def Operation.unplaced (o : Operation) : Operation := { o with line := 0 }

namespace Node

lemma tokens_bare (n : Tree) : n.bare.tokens = n.tokens := by
  have all {ns : List Tree} (ih : ∀ n ∈ ns, n.bare.tokens = n.tokens) :
      tokensAll (bareAll ns) = tokensAll ns := by
    induction ns with
    | nil => rfl
    | cons n ns ihs =>
      rw [bareAll, tokensAll, tokensAll, ih n (by simp), ihs fun m hm => ih m (by simp [hm])]
  induction n using Node.induction with
  | literal v => rfl
  | name x => rfl
  | binary op l r loc hl hr => simp [bare, tokens, hl, hr]
  | declare t x v loc hv => cases v <;> simp [bare, tokens, hv]
  | assign x v loc hv => simp [bare, tokens, hv]
  | branch c b e loc hc hb he => cases e <;> simp [bare, tokens, hc, hb, he]
  | whileLoop c b loc hc hb => simp [bare, tokens, hc, hb]
  | forLoop b loc hb => simp [bare, tokens, hb]
  | ret v loc hv => cases v <;> simp [bare, tokens, hv]
  | block ns loc ih => simp [bare, tokens, all ih]
  | program ns loc ih => simp [bare, tokens, all ih]

lemma symbols_bare (n : Tree) : n.bare.symbols = n.symbols.map .unplaced := by
  rw [symbols, symbols, walk_bare, List.filterMap_map, List.map_filterMap]
  refine List.filterMap_congr fun m _ => ?_
  rw [Function.comp_apply]
  cases m <;> simp only [bare, bare_declare, bare_branch, bare_ret, symbolEntry?] <;> rfl

lemma shortOperand_bare (n : Tree) : n.bare.shortOperand = n.shortOperand := by
  cases n with
  | literal v => cases v <;> rfl
  | _ => simp only [bare, bare_declare, bare_branch, bare_ret, shortOperand]

lemma operations_bare (n : Tree) : n.bare.operations = n.operations.map .unplaced := by
  rw [operations, operations, walk_bare, List.filterMap_map, List.map_filterMap]
  refine List.filterMap_congr fun m _ => ?_
  cases m with
  | binary op l r loc =>
    change some (⟨op, l.bare.shortOperand, r.bare.shortOperand, 0⟩ : Operation) = _
    rw [shortOperand_bare, shortOperand_bare]
    rfl
  | _ => simp only [bare, bare_declare, bare_branch, bare_ret, operation?, Function.comp_apply,
      Option.map_none]

lemma scoreAt_bare (n : Tree) : ∀ d : ℤ, n.bare.scoreAt d = n.scoreAt d := by
  induction n using innerInduction with
  | step n ih =>
    intro d
    have hinner (d : ℤ) : (n.bare.inner.map (scoreAt d)).sum = (n.inner.map (scoreAt d)).sum := by
      rw [inner_bare, List.map_map]
      exact congrArg List.sum (List.map_congr_left fun m hm => ih m hm d)
    cases hn : n.isControl with
    | true => rw [scoreAt_control hn, scoreAt_control ((isControl_bare n).trans hn), hinner]
    | false => rw [scoreAt_free hn, scoreAt_free ((isControl_bare n).trans hn), hinner]

lemma scoreCard_bare (n : Tree) : n.bare.scoreCard = n.scoreCard := by
  rw [scoreCard, scoreCard, score, score, scoreAt_bare]

end Node

/-! ### The graph -/

/-- Two pieces of a graph that differ at most in descriptions and places. -/
structure Fragment.Alike (f g : Fragment) : Prop where
  labels : f.nodes.map FlowNode.label = g.nodes.map FlowNode.label
  edges : f.edges = g.edges
  leave : f.leave = g.leave

namespace Node

variable {f g f' g' : Fragment} {next previous : ℕ} {loc loc' : Option Span}

lemma alike_refl (f : Fragment) : f.Alike f := ⟨rfl, rfl, rfl⟩

lemma length_of_alike (h : f.Alike g) : f.nodes.length = g.nodes.length := by
  simpa using congrArg List.length h.labels

lemma alike_andThen (hf : f.Alike g) (hg : f'.Alike g') :
    (f.andThen f').Alike (g.andThen g') where
  labels := by simp [Fragment.andThen, hf.labels, hg.labels]
  edges := by simp [Fragment.andThen, hf.edges, hg.edges]
  leave := hg.leave

lemma alike_decision (hf : f.Alike g) (hg : f'.Alike g') :
    (decision next previous loc f f').Alike (decision next previous loc' g g') where
  labels := by simp [decision, hf.labels, hg.labels]
  edges := by
    simp [decision, hf.edges, hg.edges, hf.leave, hg.leave, length_of_alike hf, length_of_alike hg]
  leave := by simp [decision, length_of_alike hf, length_of_alike hg]

lemma alike_loop {header footer : String × String} (hf : f.Alike g) :
    (loop next previous loc header footer f).Alike
      (loop next previous loc' header footer g) where
  labels := by simp [loop, hf.labels]
  edges := by simp [loop, hf.edges, hf.leave, length_of_alike hf]
  leave := by simp [loop, length_of_alike hf]

lemma alike_flowAll {ns : List Tree}
    (ih : ∀ n ∈ ns, ∀ next previous, (n.bare.flow next previous).Alike (n.flow next previous)) :
    ∀ next previous, (flowAll next previous (bareAll ns)).Alike (flowAll next previous ns) := by
  induction ns with
  | nil => exact fun _ _ => alike_refl _
  | cons n ns ihs =>
    intro next previous
    have hfirst := ih n (by simp) next previous
    rw [bareAll, flowAll, flowAll, length_of_alike hfirst, hfirst.leave]
    exact alike_andThen hfirst (ihs (fun m hm => ih m (by simp [hm])) _ _)

/-- The graph of a tree without places has the same labels and edges. -/
lemma flow_bare (n : Tree) :
    ∀ next previous, (n.bare.flow next previous).Alike (n.flow next previous) := by
  induction n using Node.induction with
  | literal | name | binary => exact fun _ _ => alike_refl _
  | declare t x v loc _ => cases v <;> exact fun _ _ => ⟨rfl, rfl, rfl⟩
  | assign x v loc _ => exact fun _ _ => ⟨rfl, rfl, rfl⟩
  | ret v loc _ => cases v <;> exact fun _ _ => ⟨rfl, rfl, rfl⟩
  | branch c b e loc _ hb he =>
    intro next previous
    have hbody := hb (next + 1) next
    cases e with
    | none => exact alike_decision hbody (alike_refl _)
    | some e =>
      rw [bare, flow, flow, length_of_alike hbody]
      exact alike_decision hbody (he e rfl _ _)
  | whileLoop c b loc _ hb => exact fun next previous => alike_loop (hb _ _)
  | forLoop b loc hb => exact fun next previous => alike_loop (hb _ _)
  | block ns loc ih | program ns loc ih => exact alike_flowAll ih

end Node

structure Outline where
  labels : List String
  edges : List FlowEdge
  start : ℕ
  stop : ℕ

def FlowGraph.outline (g : FlowGraph) : Outline :=
  ⟨g.nodes.map FlowNode.label, g.edges, g.start, g.stop⟩

lemma FlowGraph.outline_bare (t : Tree) : (ofTree t.bare).outline = (ofTree t).outline := by
  have hflow := Node.flow_bare t 1 0
  simp [ofTree_eq, outline, hflow.labels, hflow.edges, hflow.leave, Node.length_of_alike hflow]

/-! ### Checks -/

open Progress Node

def UnsetRead.unplaced (r : UnsetRead) : UnsetRead := { r with location := none }

namespace Initialized

lemma check_bare (n : Tree) : ∀ names, check names n.bare = (check names n).mapFault .unplaced := by
  induction n using Node.induction with
  | literal v loc => exact fun _ => rfl
  | name x loc =>
    intro names
    rw [bare, check, check]
    split <;> rfl
  | binary op l r loc hl hr =>
    intro names
    simp only [bare, check, mapFault_andThen, hl, hr]
  | declare t x v loc hv =>
    intro names
    cases v with
    | none => rfl
    | some v => simp only [bare, check, mapFault_andThen, hv v rfl, mapFault_finished]
  | assign x v loc hv =>
    intro names
    simp only [bare, check, mapFault_andThen, hv, mapFault_finished]
  | branch c b e loc hc hb he =>
    intro names
    cases e with
    | none => simp only [bare, check, mapFault_andThen, mapFault_withState, hc, hb]
    | some e => simp only [bare, check, mapFault_andThen, mapFault_withState, hc, hb, he e rfl]
  | whileLoop c b loc hc hb =>
    intro names
    simp only [bare, check, mapFault_andThen, mapFault_withState, hc, hb]
  | forLoop b loc hb =>
    intro names
    simp only [bare, check, mapFault_withState, hb]
  | ret v loc hv =>
    intro names
    cases v with
    | none => rfl
    | some v => exact hv v rfl names
  | block ns loc ih | program ns loc ih =>
    intro names
    simp only [bare, check, mapFault_withState, checkAll_eq, bareAll_eq_map, each_map ih]

end Initialized

def ZeroDivision.unplaced : ZeroDivision → ZeroDivision
  | .literal op _ => .literal op none
  | .tracked x op _ => .tracked x op none

namespace KnownValues

variable {apart : Bool} {known : Known}

lemma bind_bare (x : String) (v : Option Tree) : bind x (v.map bare) known = bind x v known := by
  cases v with
  | none => rfl
  | some v =>
    cases v with
    | literal v loc => cases v <;> rfl
    | _ => simp only [Option.map_some, bare, bare_declare, bare_branch, bare_ret, bind]

lemma zeroDivision?_bare (op : String) (r : Tree) (loc : Option Span) :
    zeroDivision? known op r.bare none = (zeroDivision? known op r loc).map .unplaced := by
  unfold zeroDivision?
  split
  · cases r with
    | literal v | name x =>
      simp only [bare]
      split <;> rfl
    | _ => simp only [bare, bare_declare, bare_branch, bare_ret, Option.map_none]
  · rfl

lemma mapFault_joinBranches {f : ZeroDivision → ZeroDivision} {yes : Outcome}
    {no : Known → Outcome} : (joinBranches apart known yes no).mapFault f =
      joinBranches apart known (yes.mapFault f) fun known => (no known).mapFault f := by
  unfold joinBranches
  split
  · dsimp only
    cases yes <;> cases no known <;> rfl
  · exact mapFault_andThen

lemma mapFault_joinLoop {f : ZeroDivision → ZeroDivision} {once : Outcome} :
    (joinLoop apart known once).mapFault f = joinLoop apart known (once.mapFault f) := by
  unfold joinLoop
  split
  · cases once <;> rfl
  · rfl

lemma check_bare (n : Tree) :
    ∀ known, check apart known n.bare = (check apart known n).mapFault .unplaced := by
  induction n using Node.induction with
  | literal v loc | name x loc => exact fun _ => rfl
  | binary op l r loc hl hr =>
    intro known
    rw [bare, check, check, zeroDivision?_bare op r loc]
    cases zeroDivision? known op r loc with
    | none => simp only [Option.map_none, mapFault_andThen, hl, hr]
    | some fault => rfl
  | declare t x v loc hv =>
    intro known
    cases v with
    | none => rfl
    | some v =>
      have hbind (known : Known) : bind x (some v.bare) known = bind x (some v) known :=
        bind_bare x (some v)
      simp only [bare, check, mapFault_andThen, hv v rfl, mapFault_finished, hbind]
  | assign x v loc hv =>
    intro known
    have hbind (known : Known) : bind x (some v.bare) known = bind x (some v) known :=
      bind_bare x (some v)
    simp only [bare, check, mapFault_andThen, hv, mapFault_finished, hbind]
  | branch c b e loc hc hb he =>
    intro known
    cases e with
    | none =>
      simp only [bare, check, mapFault_andThen, mapFault_joinBranches, hc, hb, mapFault_finished]
    | some e =>
      simp only [bare, check, mapFault_andThen, mapFault_joinBranches, hc, hb, he e rfl]
  | whileLoop c b loc hc hb =>
    intro known
    simp only [bare, check, mapFault_andThen, mapFault_joinLoop, hc, hb]
  | forLoop b loc hb =>
    intro known
    simp only [bare, check, mapFault_joinLoop, hb]
  | ret v loc hv =>
    intro known
    cases v with
    | none => rfl
    | some v => exact hv v rfl known
  | block ns loc ih | program ns loc ih =>
    simp only [bare, check, checkAll_eq, bareAll_eq_map, each_map ih, implies_true]

end KnownValues

def TypeFault.unplaced : TypeFault → TypeFault
  | .mismatch expected actual target _ => .mismatch expected actual target none
  | .undeclared x _ => .undeclared x none

namespace Typing

variable {strict : Bool} {table : SymbolTable}

lemma infer_bare (n : Tree) :
    infer strict table n.bare = (infer strict table n).mapError .unplaced := by
  induction n using Node.induction with
  | binary op l r loc hl hr =>
    rw [bare, infer, infer, hl, hr]
    cases infer strict table l with
    | error fault => rfl
    | ok left =>
      cases infer strict table r with
      | error fault => rfl
      | ok right =>
        simp only [Except.mapError, bind, Except.bind]
        split <;> rfl
  | declare t x v | branch c b e | ret v =>
    simp only [bare_declare, bare_branch, bare_ret, infer, Except.mapError]
  | _ => rfl

lemma inferOptional_bare (v : Option Tree) :
    inferOptional strict table (v.map bare) =
      (inferOptional strict table v).mapError .unplaced := by
  cases v with
  | none => rfl
  | some v => exact infer_bare v

lemma undeclared?_bare (n : Tree) :
    undeclared? table n.bare = (undeclared? table n).map .unplaced := by
  cases n with
  | name x loc =>
    rw [bare, undeclared?, undeclared?]
    split <;> rfl
  | _ => simp only [bare, bare_declare, bare_branch, bare_ret, undeclared?, Option.map_none]

lemma firstUndeclared?_bare (v : Option Tree) :
    firstUndeclared? table (v.map bare) = (firstUndeclared? table v).map .unplaced := by
  cases v with
  | none => rfl
  | some v =>
    simp only [Option.map_some, firstUndeclared?, walk_bare, List.findSome?_map, List.map_findSome?]
    congr 1
    funext n
    exact undeclared?_bare n

lemma store_bare (declared inferred target : String) (loc : Option Span) :
    store table declared inferred target none =
      (store table declared inferred target loc).mapFault .unplaced := by
  unfold store
  split <;> rfl

lemma declare_bare (t x : String) (v : Option Tree) (loc : Option Span) :
    declare strict table t x (v.map bare) none =
      (declare strict table t x v loc).mapFault .unplaced := by
  unfold declare
  rw [inferOptional_bare]
  cases inferOptional strict table v with
  | error fault => rfl
  | ok inferred =>
    simp only [Except.mapError, firstUndeclared?_bare]
    cases firstUndeclared? (table.define x t) v with
    | none => exact store_bare t inferred x loc
    | some fault => rfl

lemma assign_bare (x : String) (v : Tree) (loc : Option Span) :
    assign strict table x v.bare none = (assign strict table x v loc).mapFault .unplaced := by
  have hfirst : firstUndeclared? table (some v.bare) = _ := firstUndeclared?_bare (some v)
  unfold assign
  rw [infer_bare, hfirst]
  cases table.lookup x with
  | none => rfl
  | some declared =>
    cases firstUndeclared? table (some v) with
    | some fault => rfl
    | none =>
      cases infer strict table v with
      | error fault => rfl
      | ok inferred => exact store_bare declared inferred x loc

lemma check_bare (n : Tree) :
    ∀ table, check strict table n.bare = (check strict table n).mapFault .unplaced := by
  induction n using Node.induction with
  | literal | name | binary => exact fun _ => rfl
  | declare t x v loc _ =>
    intro table
    rw [bare_declare]
    exact declare_bare t x v loc
  | assign x v loc _ => exact fun table => assign_bare x v loc
  | branch c b e loc _ hb he =>
    intro table
    cases e with
    | none => exact hb table
    | some e => simp only [bare, check, mapFault_andThen, hb, he e rfl]
  | whileLoop c b loc _ hb => exact hb
  | forLoop b loc hb => exact hb
  | ret v loc _ => cases v <;> exact fun _ => rfl
  | block ns loc ih | program ns loc ih =>
    simp only [bare, check, checkAll_eq, bareAll_eq_map, each_map ih, implies_true]

end Typing

/-! ### Reports -/

def Diagnostic.unplaced (d : Diagnostic) : Diagnostic := { d with location := none }

/-- What a report says about a program, apart from places and from texts that speak of them: the
lines of the log and the descriptions in the graph. -/
structure Verdict where
  config : Config
  ok : Bool
  passes : List Pass
  error : Option Diagnostic
  tokens : List Token
  symbols : List SymbolEntry
  operations : List Operation
  score : Option ScoreCard
  graph : Option Outline
  declaredTypes : Table String
  knownValues : Table Number

namespace Report

def verdict (r : Report) : Verdict where
  config := r.config
  ok := r.ok
  passes := r.passes
  error := r.error.map .unplaced
  tokens := r.tokens
  symbols := r.symbols.map .unplaced
  operations := r.operations.map .unplaced
  score := r.score
  graph := r.graph.map FlowGraph.outline
  declaredTypes := r.declaredTypes
  knownValues := r.knownValues

variable {r r' : Report} {d d' : Diagnostic}

lemma verdict_fail (h : r.verdict = r'.verdict) (hd : d.unplaced = d'.unplaced) :
    (r.fail d).verdict = (r'.fail d').verdict := by
  have hfail (r : Report) (d : Diagnostic) :
      (r.fail d).verdict = { r.verdict with ok := false, error := some d.unplaced } := rfl
  rw [hfail, hfail, h, hd]

lemma verdict_checkTypes (t : Tree) (h : r.verdict = r'.verdict) :
    (checkTypes t.bare r).verdict = (checkTypes t r').verdict := by
  have hconfig : r.config = r'.config := congrArg Verdict.config h
  have hcheck : Typing.check r.config.strictOperandTypes .empty t.bare =
      (Typing.check r'.config.strictOperandTypes .empty t).mapFault .unplaced := by
    rw [hconfig, Typing.check_bare]
  unfold checkTypes
  rw [hcheck]
  cases Typing.check r'.config.strictOperandTypes .empty t with
  | finished table =>
    exact congrArg (fun v : Verdict => { v with
      declaredTypes := table.items, passes := v.passes ++ [Pass.types] }) h
  | stopped fault table =>
    refine verdict_fail h ?_
    cases fault <;> rfl

lemma verdict_checkDataFlow (t : Tree) (h : r.verdict = r'.verdict) :
    (checkDataFlow t.bare r).verdict = (checkDataFlow t r').verdict := by
  unfold checkDataFlow
  rw [Initialized.check_bare]
  cases Initialized.check [] t with
  | finished names =>
    exact congrArg (fun v : Verdict => { v with passes := v.passes ++ [Pass.dataflow] }) h
  | stopped fault names => exact verdict_fail h rfl

lemma verdict_checkMath (t : Tree) (h : r.verdict = r'.verdict) :
    (checkMath t.bare r).verdict = (checkMath t r').verdict := by
  have hconfig : r.config = r'.config := congrArg Verdict.config h
  have hcheck : KnownValues.check r.config.branchScopedConstants [] t.bare =
      (KnownValues.check r'.config.branchScopedConstants [] t).mapFault .unplaced := by
    rw [hconfig, KnownValues.check_bare]
  unfold checkMath
  rw [hcheck]
  cases KnownValues.check r'.config.branchScopedConstants [] t with
  | finished known =>
    exact congrArg (fun v : Verdict => { v with
      knownValues := known, passes := v.passes ++ [Pass.math] }) h
  | stopped fault known =>
    refine verdict_fail h ?_
    cases fault <;> rfl

lemma verdict_andCheck {check check' : Report → Report} (wanted : Bool)
    (h : r.verdict = r'.verdict) (hcheck : (check r).verdict = (check' r').verdict) :
    (r.andCheck wanted check).verdict = (r'.andCheck wanted check').verdict := by
  have hok : r.ok = r'.ok := congrArg Verdict.ok h
  unfold andCheck
  rw [hok]
  split
  · exact hcheck
  · exact h

lemma verdict_withViews (config : Config) (t : Tree) (line : String) :
    ((({ config } : Report).withViews t.bare).say line).verdict =
      ((({ config } : Report).withViews t).say line).verdict := by
  have hsymbols : t.bare.symbols.map SymbolEntry.unplaced = t.symbols.map .unplaced := by
    rw [symbols_bare, List.map_map]
    rfl
  have hoperations : t.bare.operations.map Operation.unplaced = t.operations.map .unplaced := by
    rw [operations_bare, List.map_map]
    rfl
  have hgraph : (if config.buildGraph then some (FlowGraph.ofTree t.bare) else none).map
      FlowGraph.outline =
        (if config.buildGraph then some (FlowGraph.ofTree t) else none).map FlowGraph.outline := by
    split
    · exact congrArg some (FlowGraph.outline_bare t)
    · rfl
  simp only [withViews_eq, say, verdict, tokens_bare, scoreCard_bare, hsymbols, hoperations,
    hgraph, ok]

lemma verdict_completed (config : Config) (t : Tree) :
    (({ config } : Report).completed t.bare).verdict =
      (({ config } : Report).completed t).verdict := by
  have hconfig (u : Tree) : (({ config } : Report).withViews u).config = config := by
    rw [withViews_eq]
  have hviews := verdict_withViews config t "2. Running Semantic Safety Checks..."
  have htypes := verdict_andCheck config.typeCheck hviews (verdict_checkTypes t hviews)
  have hflow := verdict_andCheck config.dataFlow htypes (verdict_checkDataFlow t htypes)
  rw [completed, completed, checked, checked, hconfig, hconfig]
  exact verdict_andCheck config.mathSafety hflow (verdict_checkMath t hflow)

/-- A tree without places is as deep as the tree and takes as many calls for its score, and it gets
the verdict of the tree. -/
lemma verdict_analyze (stack : Stack) (config : Config) (t : Tree) :
    (analyze stack config (.tree t.bare)).map verdict =
      (analyze stack config (.tree t)).map verdict := by
  have hheight := height_bare t
  by_cases h : t.height ≤ maxLevels
  · rw [analyze_tree_of_height_le (hheight.trans_le h), analyze_tree_of_height_le h, ofTree_eq,
      ofTree_eq, scoreCalls_bare]
    split_ifs
    · rfl
    · exact congrArg Except.ok (verdict_completed config t)
  · have hlt := Nat.lt_of_not_le h
    obtain ⟨place, hplace⟩ := analyze_tree_of_lt_height (hlt.trans_eq hheight.symm) stack config
    obtain ⟨place', hplace'⟩ := analyze_tree_of_lt_height hlt stack config
    rw [hplace, hplace']
    exact congrArg Except.ok (verdict_fail rfl rfl)

/-- **Places do not matter**: two trees that are equal without their places get the same verdict, in
every configuration, or there is room for neither of their scores. -/
theorem verdict_eq_of_bare_eq {t u : Tree} (h : t.bare = u.bare) (stack : Stack)
    (config : Config) :
    (analyze stack config (.tree t)).map verdict =
      (analyze stack config (.tree u)).map verdict := by
  rw [← verdict_analyze stack config t, h, verdict_analyze stack config u]

def zeroBranch (branchAt divisionAt : Option Span) : Tree :=
  .program [.declare "int" "z" (some (.literal (.int 0) none)) none,
    .branch (.name "z" branchAt)
      (.ret (some (.binary "/" (.literal (.int 1) none) (.name "z" divisionAt) divisionAt)) none)
      none branchAt] none

theorem zeroBranch_verdict_eq :
    (zeroBranch (some ⟨{ line := 7 }, { line := 8 }⟩) none).bare =
      (zeroBranch none (some ⟨{ line := 2 }, { line := 2 }⟩)).bare ∧
    (analyze ⟨0, 0, 0, 11⟩ {}
      (.tree (zeroBranch none (some ⟨{ line := 2 }, { line := 2 }⟩)))).map
      (fun r => r.error.map fun d => (d.code.text, d.line?)) = .ok (some ("CS-4001", some 2)) ∧
    (analyze ⟨0, 0, 0, 11⟩ {}
      (.tree (zeroBranch (some ⟨{ line := 7 }, { line := 8 }⟩) none))).map verdict =
      (analyze ⟨0, 0, 0, 11⟩ {}
        (.tree (zeroBranch none (some ⟨{ line := 2 }, { line := 2 }⟩)))).map verdict := by
  have hbare : (zeroBranch (some ⟨{ line := 7 }, { line := 8 }⟩) none).bare =
      (zeroBranch none (some ⟨{ line := 2 }, { line := 2 }⟩)).bare := rfl
  exact ⟨hbare, by decide +kernel, verdict_eq_of_bare_eq hbare _ {}⟩

end Report

end Primer
