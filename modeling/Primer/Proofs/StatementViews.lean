import Mathlib.Tactic
import Primer.Proofs.AcceptedProgram
import Primer.Proofs.Decisions
import Primer.View.Explain
import Primer.View.Listing

/-!
The statements of a program, as the graph, the explanations and the declarations list them.

In a well-sorted tree only expressions stand as conditions, values and operands. There the nodes of
the graph that are made for statements stand in the order of the statements in a walk, one for each,
although the graph is made with other nodes in between. So the three views list the same statements.
-/

namespace Primer

namespace Node

/-! ### Well-sorted trees -/

def isExpression : Tree → Bool
  | .literal .. | .name .. | .binary .. => true
  | _ => false

/-- The nodes that stand directly in a node as its condition, its value or its operands. -/
def operands : Tree → List Tree
  | .binary _ l r _ => [l, r]
  | .declare _ _ v _ => v.toList
  | .assign _ v _ => [v]
  | .branch c _ _ _ => [c]
  | .whileLoop c _ _ => [c]
  | .ret v _ => v.toList
  | _ => []

/-- Only expressions stand as conditions, values and operands. -/
def WellSorted (t : Tree) : Prop := ∀ n ∈ t.walk, ∀ e ∈ n.operands, e.isExpression

instance : DecidablePred WellSorted := fun _ => inferInstanceAs (Decidable (∀ _ ∈ _, _))

lemma children_eq (n : Tree) : n.children = n.operands ++ n.inner := by
  cases n <;> simp [children, operands, inner]

lemma inner_eq_nil {e : Tree} (he : e.isExpression) : e.inner = [] := by
  cases e with
  | literal | name | binary => rfl
  | _ => cases he

lemma WellSorted.child {n m : Tree} (h : n.WellSorted) (hm : m ∈ n.children) : m.WellSorted :=
  forall_walk_child h hm

lemma WellSorted.operand {n e : Tree} (h : n.WellSorted) (he : e ∈ n.operands) : e.isExpression :=
  self_of_forall_walk h e he

/-- A tree is well sorted if its parts are and its operands are expressions. -/
lemma wellSorted_of_children {n : Tree} (hn : ∀ e ∈ n.operands, e.isExpression)
    (hm : ∀ m ∈ n.children, m.WellSorted) : n.WellSorted := by
  rw [WellSorted, walk_eq, List.forall_mem_cons, List.forall_mem_flatMap]
  exact ⟨hn, hm⟩

section

variable {ok : Literal → Prop} {n e : Tree}

lemma IsExpression.isExpression (h : e.IsExpression ok) : e.isExpression := by
  cases e with
  | literal | name | binary => rfl
  | _ => exact h.elim

lemma IsExpression.wellSorted (h : e.IsExpression ok) : e.WellSorted := by
  induction e using Node.induction with
  | literal v loc | name x loc =>
    exact wellSorted_of_children (by simp [operands]) (by simp [children])
  | binary op l r loc hl hr =>
    obtain ⟨-, hle, hre⟩ := h
    refine wellSorted_of_children ?_ ?_
    · simp [operands, hle.isExpression, hre.isExpression]
    · simp [children, hl hle, hr hre]
  | _ => exact h.elim

lemma IsStatement.wellSorted (h : n.IsStatement ok) : n.WellSorted := by
  induction n using Node.induction with
  | declare t x v loc _ =>
    cases v with
    | none => exact wellSorted_of_children (by simp [operands]) (by simp [children])
    | some v =>
      obtain ⟨-, -, hv⟩ := h
      exact wellSorted_of_children (by simp [operands, hv.isExpression])
        (by simp [children, hv.wellSorted])
  | assign x v loc _ =>
    obtain ⟨-, hv⟩ := h
    exact wellSorted_of_children (by simp [operands, hv.isExpression])
      (by simp [children, hv.wellSorted])
  | branch c b e loc _ hb he =>
    cases e with
    | none =>
      obtain ⟨hc, hbody⟩ := h
      exact wellSorted_of_children (by simp [operands, hc.isExpression])
        (by simp [children, hc.wellSorted, hb hbody])
    | some e =>
      obtain ⟨hc, hbody, -, helse⟩ := h
      exact wellSorted_of_children (by simp [operands, hc.isExpression])
        (by simp [children, hc.wellSorted, hb hbody, he e rfl helse])
  | whileLoop c b loc _ hb =>
    obtain ⟨hc, hbody⟩ := h
    exact wellSorted_of_children (by simp [operands, hc.isExpression])
      (by simp [children, hc.wellSorted, hb hbody])
  | ret v loc _ =>
    cases v with
    | none => exact wellSorted_of_children (by simp [operands]) (by simp [children])
    | some v =>
      have hv : v.IsExpression ok := h
      exact wellSorted_of_children (by simp [operands, hv.isExpression])
        (by simp [children, hv.wellSorted])
  | block ns loc ih =>
    refine wellSorted_of_children (by simp [operands]) fun m hm => ?_
    exact ih m hm (isStatements_iff.1 h m hm)
  | _ => exact h.elim

lemma IsProgram.wellSorted (h : n.IsProgram ok) : n.WellSorted := by
  cases n with
  | program ns loc =>
    refine wellSorted_of_children (by simp [operands]) fun m hm => ?_
    exact IsStatement.wellSorted (isStatements_iff.1 h m hm)
  | _ => exact h.elim

end

/-! ### Statements in the order of a walk -/

def statements (t : Tree) : List Tree := t.walk.filter isStatement

/-- An expression holds no statement. -/
lemma statements_expression {e : Tree} (h : e.WellSorted) (he : e.isExpression) :
    e.statements = [] := by
  induction e using childInduction with
  | step e ih =>
    have hself : e.isStatement = false := by
      cases e with
      | literal | name | binary => rfl
      | _ => cases he
    have hchild : ∀ m ∈ e.children, m.isExpression := by
      rw [children_eq, inner_eq_nil he, List.append_nil]
      exact fun m hm => h.operand hm
    rw [statements, walk_eq, List.filter_cons_of_neg (by simp [hself]), List.filter_flatMap,
      List.flatMap_eq_nil_iff]
    exact fun m hm => ih m hm (h.child hm) (hchild m hm)

/-- In a well-sorted tree statements are found only in rows, bodies and `else` parts. -/
lemma statements_eq {t : Tree} (h : t.WellSorted) :
    t.statements = [t].filter isStatement ++ t.inner.flatMap statements := by
  have hoperands : t.operands.flatMap statements = [] := by
    rw [List.flatMap_eq_nil_iff]
    intro e he
    exact statements_expression (h.child (by simp [children_eq, he])) (h.operand he)
  have hchildren : (t.children.flatMap walk).filter isStatement = t.inner.flatMap statements := by
    rw [List.filter_flatMap, children_eq, List.flatMap_append]
    change t.operands.flatMap statements ++ _ = _
    rw [hoperands]
    rfl
  rw [statements, walk_eq, ← List.singleton_append, List.filter_append, hchildren]

/-- Declarations are statements, so they are listed among them. -/
lemma symbols_eq (t : Tree) : t.symbols = t.statements.filterMap symbolEntry? := by
  rw [symbols, statements, List.filterMap_filter]
  refine List.filterMap_congr fun n _ => ?_
  cases n <;> rfl

end Node

/-! ### Nodes that are made for statements -/

namespace FlowNode

/-- The labels of the nodes that are made for no statement: where a program starts and ends, where
the ways of a decision meet, and where loops are left. -/
def marks : List String := ["Start", "End", "End If", "End While", "End For"]

def isMark (n : FlowNode) : Bool := marks.contains n.label

def isDeclaration (n : FlowNode) : Bool := "Initialization: ".toList.isPrefixOf n.description.toList

/-- A node creates the variable of an entry: its label and its description give the type and the
name, and its line is the one listed, zero if it has none. -/
structure Declares (n : FlowNode) (s : SymbolEntry) : Prop where
  label : n.label = s.type ++ " " ++ s.name ++ " = ..."
  description : ("Initialization: This creates a '" ++ s.type ++ "' variable named '" ++ s.name ++
    "' and stores the value [ ").toList <+: n.description.toList
  line : n.line?.getD 0 = s.line

/-- A node is made for a statement: it has the place of the statement, and it says that it creates
a variable exactly if the statement declares one, and then this one. -/
structure MadeFor (n : FlowNode) (s : Tree) : Prop where
  location : n.location = s.location
  declares : Option.Rel Declares (Option.guard isDeclaration n) s.symbolEntry?

variable {n : FlowNode}

lemma isMark_eq_false (h : n.label ∉ marks) : n.isMark = false := by
  rwa [isMark, ← Bool.not_eq_true, List.contains_iff_mem]

lemma stored_not_mem_marks (s : String) : s ++ " = ..." ∉ marks :=
  stored_not_mem (by decide) s

/-- A node for something else than a declaration starts its description with another letter. -/
lemma madeFor_of_head {s : Tree} (hlocation : n.location = s.location)
    (hhead : n.description.toList.head? ≠ some 'I') (hs : s.symbolEntry? = none) :
    n.MadeFor s := by
  have hother : n.isDeclaration = false := by
    rw [isDeclaration, ← Bool.not_eq_true, List.isPrefixOf_iff_prefix]
    rintro ⟨rest, hrest⟩
    exact hhead (by rw [← hrest]; rfl)
  refine ⟨hlocation, ?_⟩
  rw [hs, Option.guard_eq_none_iff.2 (by simp [hother])]
  exact .none

end FlowNode

namespace FlowGraph

def statementNodes (g : FlowGraph) : List FlowNode := g.nodes.filter fun n => !n.isMark

end FlowGraph

namespace Node

open FlowNode

variable {next previous : ℕ} {loc : Option Span} {s : Tree} {ss ss' : List Tree}
  {label description : String} {f g : Fragment}

/-- The nodes of a piece that are no marks are made for the given statements, one for each. -/
def Lists (f : Fragment) (ss : List Tree) : Prop :=
  List.Forall₂ MadeFor (f.nodes.filter fun n => !n.isMark) ss

lemma lists_empty (previous : ℕ) : Lists ⟨[], [], previous⟩ [] := .nil

lemma lists_step (hlabel : label ∉ marks) (hmade : MadeFor ⟨next, label, description, loc⟩ s) :
    Lists (step next previous label description loc) [s] := by
  have hmark : isMark ⟨next, label, description, loc⟩ = false := isMark_eq_false hlabel
  simpa [Lists, step, hmark] using hmade

lemma lists_andThen (hf : Lists f ss) (hg : Lists g ss') : Lists (f.andThen g) (ss ++ ss') := by
  rw [Lists, Fragment.andThen, List.filter_append]
  exact List.rel_append hf hg

/-- The node of a decision stands before those of its ways, and the node where they meet is left
out. -/
lemma lists_decision {c b : Tree} {e : Option Tree} (hf : Lists f ss) (hg : Lists g ss') :
    Lists (decision next previous loc f g) (.branch c b e loc :: (ss ++ ss')) := by
  have hmade : MadeFor ⟨next, "if (...)", decisionText loc, loc⟩ (.branch c b e loc) := by
    refine madeFor_of_head rfl ?_ rfl
    unfold decisionText
    cases loc <;> simp
  have hlabel : "if (...)" ∉ marks := by decide
  have hmeeting : "End If" ∈ marks := by decide
  have hhead : isMark ⟨next, "if (...)", decisionText loc, loc⟩ = false := isMark_eq_false hlabel
  have hmeet (k : ℕ) (d : String) : isMark ⟨k, "End If", d, none⟩ = true :=
    List.contains_iff_mem.2 hmeeting
  simp only [Lists, decision, List.filter_cons, List.filter_append, List.filter_nil, hhead, hmeet,
    Bool.not_false, Bool.not_true, if_true, Bool.false_eq_true, if_false, List.append_nil]
  exact .cons hmade (List.rel_append hf hg)

/-- The header of a loop stands before the nodes of its body, and the node behind it is left out. -/
lemma lists_loop {header footer : String × String} (hheader : header.1 ∉ marks)
    (hhead : header.2.toList.head? ≠ some 'I') (hfooter : footer.1 ∈ marks)
    (hlocation : s.location = loc) (hs : s.symbolEntry? = none) (hf : Lists f ss) :
    Lists (loop next previous loc header footer f) (s :: ss) := by
  have hmade : MadeFor ⟨next, header.1, header.2, loc⟩ s :=
    madeFor_of_head hlocation.symm hhead hs
  have hbegin : isMark ⟨next, header.1, header.2, loc⟩ = false := isMark_eq_false hheader
  have hend (k : ℕ) : isMark ⟨k, footer.1, footer.2, none⟩ = true :=
    List.contains_iff_mem.2 hfooter
  simp only [Lists, loop, List.filter_cons, List.filter_append, List.filter_nil, hbegin, hend,
    Bool.not_false, Bool.not_true, if_true, Bool.false_eq_true, if_false, List.append_nil]
  exact .cons hmade hf

lemma lists_flowAll {ns : List Tree}
    (ih : ∀ n ∈ ns, ∀ next previous, Lists (flow next previous n) n.statements) :
    ∀ next previous, Lists (flowAll next previous ns) (ns.flatMap statements) := by
  induction ns with
  | nil => exact fun _ previous => lists_empty previous
  | cons n ns ihs =>
    intro next previous
    rw [flowAll, List.flatMap_cons]
    exact lists_andThen (ih n (by simp) _ _) (ihs (fun m hm => ih m (by simp [hm])) _ _)

lemma madeFor_declare (next : ℕ) (t x : String) (v : Option Tree) (loc : Option Span) :
    MadeFor ⟨next, t ++ " " ++ x ++ " = ...", "Initialization: This creates a '" ++ t ++
      "' variable named '" ++ x ++ "' and stores the value [ " ++ readableValue v ++
      " ] inside it.", loc⟩ (.declare t x v loc) := by
  refine ⟨rfl, ?_⟩
  rw [Option.guard_eq_some_iff.2 ⟨rfl, ?_⟩]
  · refine .some ⟨rfl, ?_, ?_⟩
    · simp [String.append_assoc]
    · rfl
  · simp [isDeclaration]

/-- The graph of a well-sorted tree has a node for each of its statements. -/
lemma lists_flow (t : Tree) (h : t.WellSorted) :
    ∀ next previous, Lists (t.flow next previous) t.statements := by
  induction t using innerInduction with
  | step t ih =>
    have ih' : ∀ m ∈ t.inner, ∀ next previous, Lists (m.flow next previous) m.statements :=
      fun m hm => ih m hm (h.child (inner_subset_children t hm))
    rw [statements_eq h]
    intro next previous
    cases t with
    | literal | name | binary => exact lists_empty previous
    | declare t x v loc =>
      exact lists_step (stored_not_mem_marks _) (madeFor_declare next t x v loc)
    | assign x v loc =>
      refine lists_step (stored_not_mem_marks x) (madeFor_of_head rfl ?_ rfl)
      simp
    | ret v loc =>
      refine lists_step (by decide) (madeFor_of_head rfl ?_ rfl)
      simp
    | branch c b e loc =>
      have hbody := ih' b (by simp [inner]) (next + 1) next
      cases e with
      | none =>
        have hway : Lists (decision next previous loc _ _) (.branch c b none loc :: _) :=
          lists_decision hbody (lists_empty next)
        simpa [flow, inner, List.filter_cons, isStatement] using hway
      | some e =>
        have helse := ih' e (by simp [inner]) (next + 1 + (b.flow (next + 1) next).nodes.length)
          next
        have hway : Lists (decision next previous loc _ _) (.branch c b (some e) loc :: _) :=
          lists_decision hbody helse
        simpa [flow, inner, List.filter_cons, isStatement] using hway
    | whileLoop c b loc =>
      have hbody := ih' b (by simp [inner]) (next + 1) next
      have hround : Lists (loop next previous loc whileHeader whileFooter _)
          (.whileLoop c b loc :: _) :=
        lists_loop (by decide) (by decide) (by decide) rfl rfl hbody
      simpa [flow, inner, List.filter_cons, isStatement] using hround
    | forLoop b loc =>
      have hbody := ih' b (by simp [inner]) (next + 1) next
      have hround : Lists (loop next previous loc forHeader forFooter _) (.forLoop b loc :: _) :=
        lists_loop (by decide) (by decide) (by decide) rfl rfl hbody
      simpa [flow, inner, List.filter_cons, isStatement] using hround
    | block ns loc | program ns loc => exact lists_flowAll ih' next previous

end Node

namespace FlowGraph

open FlowNode

lemma madeFor_statementNodes {t : Tree} (h : t.WellSorted) :
    List.Forall₂ MadeFor (ofTree t).statementNodes t.statements := by
  have hstart : "Start" ∈ marks := by decide
  have hstop : "End" ∈ marks := by decide
  have hnodes : (ofTree t).statementNodes = (t.flow 1 0).nodes.filter fun n => !n.isMark := by
    rw [statementNodes, ofTree_eq]
    simp [isMark, hstart, hstop]
  rw [hnodes]
  exact Node.lists_flow t h 1 0

/-- **The views agree**: in a well-sorted tree, as every tree is that was read from a text, the
nodes of the graph that are made for statements have the lines of the explanations, in the same
order, and those among them that create a variable match the declarations, one by one. -/
theorem views_list_statements :
    (∀ depth source t, Grammar.parse depth source = .ok t → t.WellSorted) ∧
      ∀ t : Tree, t.WellSorted →
        (ofTree t).statementNodes.map FlowNode.line? = t.explanations.map Prod.fst ∧
        List.Forall₂ Declares ((ofTree t).statementNodes.filter isDeclaration) t.symbols := by
  refine ⟨fun depth source t ht => (Grammar.isProgram_of_parse ht).wellSorted, fun t h => ⟨?_, ?_⟩⟩
  · have hexplained : t.explanations.map Prod.fst = t.statements.map Node.line? := by
      simp [Node.explanations, Node.statements, Function.comp_def]
    have hlines : List.Forall₂ Eq ((ofTree t).statementNodes.map FlowNode.line?)
        (t.statements.map Node.line?) := by
      refine List.rel_map (fun n s hmade => ?_) (madeFor_statementNodes h)
      rw [FlowNode.line?, Node.line?, hmade.location]
    rwa [hexplained, ← List.forall₂_eq_eq_eq]
  · rw [Node.symbols_eq, ← List.filterMap_eq_filter]
    exact List.rel_filterMap (fun _ _ hmade => hmade.declares) (madeFor_statementNodes h)

def scattered : String :=
  "int a = 1;\nif (a < 2) \x7b\n float b;\n\x7d else while (a > 3)\n  \x7b bool a; \x7d\nreturn a;"

def countedRow : Tree :=
  .block [.forLoop (.block [.declare "int" "i" none none, .name "i" none] none)
    (some ⟨{ line := 3 }, { line := 4 }⟩), .ret none none] none

theorem scattered_views_list_statements :
    (∃ t, Grammar.parse 9 scattered = .ok t ∧
      t.symbols = [⟨"int", "a", 1⟩, ⟨"float", "b", 3⟩, ⟨"bool", "a", 5⟩] ∧
      (ofTree t).statementNodes.map FlowNode.line? =
        [some 1, some 2, some 3, some 4, some 5, some 6] ∧
      List.Forall₂ Declares ((ofTree t).statementNodes.filter isDeclaration) t.symbols) ∧
    countedRow.WellSorted ∧ countedRow.symbols = [⟨"int", "i", 0⟩] ∧
      (ofTree countedRow).statementNodes.map FlowNode.line? = [some 3, none, none] ∧
      List.Forall₂ Declares ((ofTree countedRow).statementNodes.filter isDeclaration)
        countedRow.symbols := by
  have hread : (Grammar.parse 9 scattered).map
      (fun t => (t.symbols, t.explanations.map Prod.fst)) =
        .ok ([⟨"int", "a", 1⟩, ⟨"float", "b", 3⟩, ⟨"bool", "a", 5⟩],
          [some 1, some 2, some 3, some 4, some 5, some 6]) := by
    decide +kernel
  obtain ⟨t, ht, hviews⟩ := Grammar.exists_of_map_parse hread
  obtain ⟨hsymbols, hexplained⟩ := Prod.mk.inj hviews
  obtain ⟨hlines, hdeclared⟩ :=
    views_list_statements.2 t (views_list_statements.1 9 scattered t ht)
  have hsorted : countedRow.WellSorted := by decide
  obtain ⟨hlines', hdeclared'⟩ := views_list_statements.2 countedRow hsorted
  exact ⟨⟨t, ht, hsymbols, hlines.trans hexplained, hdeclared⟩, hsorted, rfl, hlines', hdeclared'⟩

end FlowGraph

end Primer
