import Mathlib.Tactic
import Primer.Proofs.Drawing
import Primer.Proofs.FlatPrograms

/-!
The nodes that are drawn as diamonds.

Each node of the graph is made for something: a statement, the end of a decision or of a loop, or
the start or the end of the program. A drawing has diamonds for the headers of decisions and loops,
but it tells them from other nodes by how their labels begin. The label of an assignment begins with
the name of its variable, and a name may begin as a header does.
-/

namespace Primer

/-! ### What nodes are made for -/

inductive Origin where
  | start
  /-- A statement. The node of a decision or a loop is its header. -/
  | statement (s : Tree)
  /-- The end of a decision or a loop. -/
  | footer (s : Tree)
  | stop

def startsLikeHeader (x : String) : Bool :=
  ["if", "while", "for"].any fun w => w.toList.isPrefixOf x.toList

namespace Origin

def label : Origin → String
  | .start => "Start"
  | .statement (.declare t x _ _) => t ++ " " ++ x ++ " = ..."
  | .statement (.assign x _ _) => x ++ " = ..."
  | .statement (.branch ..) => "if (...)"
  | .statement (.whileLoop ..) => Node.whileHeader.1
  | .statement (.forLoop ..) => Node.forHeader.1
  | .statement _ => "Return"
  | .footer (.branch ..) => "End If"
  | .footer (.whileLoop ..) => Node.whileFooter.1
  | .footer _ => Node.forFooter.1
  | .stop => "End"

def statement? : Origin → Option Tree
  | .statement s => some s
  | _ => none

def location (o : Origin) : Option Span := o.statement?.bind Node.location

def isHeader (o : Origin) : Bool := o.statement?.any Node.isControl

def misleads : Origin → Bool
  | .statement (.assign x _ _) => startsLikeHeader x
  | _ => false

end Origin

namespace Node

mutual

/-- What the nodes of a tree are made for, in the order in which they are made. -/
def origins : Tree → List Origin
  | .declare t x v loc => [.statement (.declare t x v loc)]
  | .assign x v loc => [.statement (.assign x v loc)]
  | .ret v loc => [.statement (.ret v loc)]
  | .branch c b none loc =>
    .statement (.branch c b none loc) :: (b.origins ++ [.footer (.branch c b none loc)])
  | .branch c b (some e) loc =>
    .statement (.branch c b (some e) loc) ::
      (b.origins ++ e.origins ++ [.footer (.branch c b (some e) loc)])
  | .whileLoop c b loc =>
    .statement (.whileLoop c b loc) :: (b.origins ++ [.footer (.whileLoop c b loc)])
  | .forLoop b loc => .statement (.forLoop b loc) :: (b.origins ++ [.footer (.forLoop b loc)])
  | .block ns _ => originsAll ns
  | .program ns _ => originsAll ns
  | _ => []

def originsAll : List Tree → List Origin
  | [] => []
  | n :: ns => n.origins ++ originsAll ns

end

lemma originsAll_eq_flatMap (ns : List Tree) : originsAll ns = ns.flatMap origins := by
  induction ns with
  | nil => rfl
  | cons n ns ih => simp [originsAll, ih]

end Node

namespace FlowNode

/-- A node shows the label and the place of what it is made for. -/
structure Shows (n : FlowNode) (o : Origin) : Prop where
  label : n.label = o.label
  location : n.location = o.location

end FlowNode

namespace Node

open FlowNode

def ShowsAll (f : Fragment) (os : List Origin) : Prop := List.Forall₂ Shows f.nodes os

variable {next previous : ℕ} {loc : Option Span} {f g : Fragment} {os os' : List Origin} {s : Tree}

lemma showsAll_empty (previous : ℕ) : ShowsAll ⟨[], [], previous⟩ [] := .nil

lemma showsAll_step {label description : String} (hlabel : label = (Origin.statement s).label)
    (hloc : loc = s.location) :
    ShowsAll (step next previous label description loc) [.statement s] :=
  .cons ⟨hlabel, hloc⟩ .nil

lemma showsAll_decision {c b : Tree} {e : Option Tree} (hf : ShowsAll f os) (hg : ShowsAll g os') :
    ShowsAll (decision next previous loc f g)
      (.statement (.branch c b e loc) :: (os ++ os' ++ [.footer (.branch c b e loc)])) :=
  .cons ⟨rfl, rfl⟩ (List.rel_append (List.rel_append hf hg) (.cons ⟨rfl, rfl⟩ .nil))

lemma showsAll_loop {header footer : String × String}
    (hheader : header.1 = (Origin.statement s).label)
    (hfooter : footer.1 = (Origin.footer s).label) (hloc : loc = s.location) (hf : ShowsAll f os) :
    ShowsAll (loop next previous loc header footer f) (.statement s :: (os ++ [.footer s])) :=
  .cons ⟨hheader, hloc⟩ (List.rel_append hf (.cons ⟨hfooter, rfl⟩ .nil))

lemma showsAll_flowAll {ns : List Tree}
    (ih : ∀ n ∈ ns, ∀ next previous, ShowsAll (flow next previous n) n.origins) :
    ∀ next previous, ShowsAll (flowAll next previous ns) (originsAll ns) := by
  induction ns with
  | nil => exact fun _ _ => .nil
  | cons n ns ihs =>
    intro next previous
    exact List.rel_append (ih n (by simp) _ _) (ihs (fun m hm => ih m (by simp [hm])) _ _)

/-- The nodes of every tree show what they are made for. -/
lemma showsAll_flow (t : Tree) : ∀ next previous, ShowsAll (t.flow next previous) t.origins := by
  induction t using Node.induction with
  | literal | name | binary => exact fun _ previous => showsAll_empty previous
  | declare | assign | ret => exact fun _ _ => showsAll_step rfl rfl
  | branch c b e loc _ ihb ihe =>
    intro next previous
    rcases e with _ | e
    · have hway :
          ShowsAll (decision next previous loc _ _) (.statement (.branch c b none loc) :: _) :=
        showsAll_decision (ihb (next + 1) next) (showsAll_empty next)
      rwa [List.append_nil] at hway
    · exact showsAll_decision (ihb _ _) (ihe e rfl _ _)
  | whileLoop c b loc _ ihb => exact fun _ _ => showsAll_loop rfl rfl rfl (ihb _ _)
  | forLoop b loc ihb => exact fun _ _ => showsAll_loop rfl rfl rfl (ihb _ _)
  | block ns loc ih | program ns loc ih => exact showsAll_flowAll ih

/-- In a well-sorted tree every statement has one node for its own, and these nodes are made in the
order of the statements in a walk. -/
lemma statements_origins {t : Tree} (h : t.WellSorted) :
    t.origins.filterMap Origin.statement? = t.statements := by
  induction t using innerInduction with
  | step t ih =>
    have ih' : ∀ m ∈ t.inner, m.origins.filterMap Origin.statement? = m.statements :=
      fun m hm => ih m hm (h.child (inner_subset_children t hm))
    have hrow : ∀ ns : List Tree, t.inner = ns →
        (originsAll ns).filterMap Origin.statement? = ns.flatMap statements := by
      rintro _ rfl
      rw [originsAll_eq_flatMap, List.filterMap_flatMap]
      exact List.flatMap_congr ih'
    rw [statements_eq h]
    cases t with
    | literal | name | binary | declare | assign | ret => rfl
    | branch c b e loc =>
      have hb := ih' b (by simp [inner])
      cases e with
      | none =>
        simp [origins, Origin.statement?, List.filterMap_cons, List.filter_cons, isStatement, inner,
          hb]
      | some e =>
        have he := ih' e (by simp [inner])
        simp [origins, Origin.statement?, List.filterMap_cons, List.filter_cons, isStatement, inner,
          hb, he]
    | whileLoop c b loc | forLoop b loc =>
      have hb := ih' b (by simp [inner])
      simp [origins, Origin.statement?, List.filterMap_cons, List.filter_cons, isStatement, inner,
        hb]
    | block ns loc | program ns loc => exact hrow ns rfl

end Node

/-! ### Reading shapes off a drawing -/

namespace Dot

/-- The parts of a line that stand outside of quotes. -/
def outside (before : List Char) : List (List Char) → List (List Char)
  | _ :: between :: ps => before :: outside between ps
  | _ => [before]

def showsDiamond (line : List Char) : Bool :=
  (parts false line).any fun p => (outside p.1 p.2).any fun q => "shape=diamond".toList <:+: q

def nodeMark (i : ℕ) : List Char := ("  N" ++ toString i ++ " [").toList

/-- Whether a drawing gives the node with a number the shape of a diamond. -/
def isDiamond (text : String) (i : ℕ) : Bool :=
  (lines text).any fun line => (nodeMark i).isPrefixOf line && showsDiamond line

lemma toString_inj {m n : ℕ} (h : (toString m).toList = (toString n).toList) : m = n := by
  rw [Nat.toString_eq_repr, Nat.toString_eq_repr, Nat.toList_repr, Nat.toList_repr] at h
  rw [← Lexeme.digitsValue_toDigits m, h, Lexeme.digitsValue_toDigits]

/-- Behind the mark for a number and a blank the line goes on as the mark does. -/
lemma eq_of_nodeMark {i j : ℕ} {r : List Char}
    (h : nodeMark i <+: "  N".toList ++ ((toString j).toList ++ ' ' :: r)) :
    i = j ∧ r.head? = some '[' := by
  have hmark : nodeMark i = "  N".toList ++ ((toString i).toList ++ [' ', '[']) := by
    simp [nodeMark]
  obtain ⟨rest, hrest⟩ := h
  rw [hmark, List.append_assoc, List.append_cancel_left_eq, List.append_assoc] at hrest
  obtain ⟨hdigits, hr⟩ := Lexeme.run_inj (fun c => isDigit_of_mem_toString)
    (fun c => isDigit_of_mem_toString) (by simp) (by simp) hrest
  refine ⟨toString_inj hdigits, ?_⟩
  rw [← (List.cons.inj hr).2]
  rfl

end Dot

namespace FlowGraph

open Dot

variable {t : Tree} {g : FlowGraph} {n : FlowNode} {e : FlowEdge} {i : ℕ} {title : String}

lemma nodeMark_dotNode_iff : nodeMark i <+: (g.dotNode n).toList ↔ i = n.id := by
  constructor
  · intro h
    rw [toList_dotNode, dotOpening] at h
    exact (eq_of_nodeMark (r := _) (by simpa using h)).1
  · rintro rfl
    rw [toList_dotNode, dotOpening, nodeMark]
    simp

lemma not_nodeMark_dotEdge (i : ℕ) (e : FlowEdge) : ¬ nodeMark i <+: (dotEdge e).toList := by
  intro h
  have hline := (eq_of_nodeMark (j := e.source) (r := _) (by simpa [dotEdge] using h)).2
  simp at hline

/-- The lines of nodes are the only ones that begin with the mark of one. -/
lemma nodeMark_dotLines {l : String} (hl : l ∈ g.dotLines title) (h : nodeMark i <+: l.toList) :
    ∃ n ∈ g.nodes, i = n.id ∧ l = g.dotNode n := by
  have hother : ∀ {l : String}, ¬ "  N".toList <+: l.toList → ¬ nodeMark i <+: l.toList := by
    intro l hl h
    refine hl (List.IsPrefix.trans ?_ h)
    simp [nodeMark]
  simp only [dotLines, List.mem_append, List.mem_singleton, List.mem_map] at hl
  rcases hl with ((((rfl | htitle) | rfl) | ⟨n, hn, rfl⟩) | ⟨e, -, rfl⟩) | rfl
  · exact absurd h (hother (by decide))
  · split_ifs at htitle
    · simp at htitle
    · rw [List.mem_singleton] at htitle
      refine absurd h (hother ?_)
      simp [htitle, dotAttribute]
  · exact absurd h (hother (by decide))
  · exact ⟨n, hn, nodeMark_dotNode_iff.1 h, rfl⟩
  · exact absurd h (not_nodeMark_dotEdge i e)
  · exact absurd h (hother (by decide))

lemma showsDiamond_dotNode :
    showsDiamond (g.dotNode n).toList ↔ n.id ≠ g.start ∧ n.id ≠ g.stop ∧ isDecision n := by
  have hopening : ¬ "shape=diamond".toList <:+: (dotOpening n).toList := by
    intro h
    have hmem : 's' ∈ (dotOpening n).toList := h.subset (by decide)
    have hnumber : 's' ∉ Nat.toDigits 10 n.id := by
      simpa using not_mem_toString (c := 's') (by decide) n.id
    simp [dotOpening, hnumber] at hmem
  have hbetween : ¬ "shape=diamond".toList <:+: ", tooltip=".toList := by decide
  rw [showsDiamond, parts_dotNode, parts_dotStyle]
  simp only [Option.map_some, Option.any_some, outside, List.any_cons, hopening, hbetween,
    decide_false, Bool.false_or]
  split_ifs with hstart hstop hdecision
  · exact iff_of_false (by decide) fun h => h.1 hstart
  · exact iff_of_false (by decide) fun h => h.2.1 hstop
  · exact iff_of_true (by decide) ⟨hstart, hstop, hdecision⟩
  · exact iff_of_false (by decide) fun h => hdecision h.2.2

/-- In a drawing of nodes with numbers of their own, the diamonds are the nodes that pass for
decisions, but for the first and the last one. -/
lemma isDiamond_iff (hlabels : ∀ e ∈ g.edges, e.label ≠ some "")
    (hids : (g.nodes.map FlowNode.id).Nodup) (hn : n ∈ g.nodes) :
    isDiamond (g.toDot title) n.id ↔ n.id ≠ g.start ∧ n.id ≠ g.stop ∧ isDecision n := by
  rw [← showsDiamond_dotNode, isDiamond, lines_toDot hlabels, List.any_map, List.any_eq_true]
  simp only [Function.comp_apply, Bool.and_eq_true, List.isPrefixOf_iff_prefix]
  constructor
  · rintro ⟨l, hl, hmark, hshape⟩
    obtain ⟨m, hm, hid, rfl⟩ := nodeMark_dotLines hl hmark
    rwa [List.inj_on_of_nodup_map hids hn hm hid]
  · intro hshape
    have hl : g.dotNode n ∈ g.dotLines title := by
      simp only [dotLines, List.mem_append, List.mem_map]
      exact .inl (.inl (.inr ⟨n, hn, rfl⟩))
    exact ⟨_, hl, nodeMark_dotNode_iff.2 rfl, hshape⟩

/-! ### Diamonds and headers -/

def origins (t : Tree) : List Origin := .start :: (t.origins ++ [.stop])

lemma shows_origins (t : Tree) : List.Forall₂ FlowNode.Shows (ofTree t).nodes (origins t) := by
  rw [ofTree_eq]
  exact .cons ⟨rfl, rfl⟩
    (List.rel_append (Node.showsAll_flow t 1 0) (.cons ⟨rfl, rfl⟩ .nil))

/-- Neither the first nor the last node passes for a decision. -/
lemma isDiamond_ofTree (hn : n ∈ (ofTree t).nodes) :
    isDiamond ((ofTree t).toDot title) n.id ↔ startsLikeHeader n.label := by
  have hids : ((ofTree t).nodes.map FlowNode.id).Nodup := by
    rw [ofTree_numbered]
    exact List.nodup_range'
  rw [isDiamond_iff (fun e => label_ne_empty) hids hn, start_ofTree]
  refine ⟨fun h => h.2.2, fun h => ?_⟩
  rcases node_cases hn with rfl | hn | rfl
  · exact absurd h (by decide)
  · obtain ⟨hfirst, hlast, -⟩ := tally_flow hn FlowNode.headers
    exact ⟨hfirst, hlast, h⟩
  · exact absurd h (show ¬ startsLikeHeader "End" by decide)

end FlowGraph

/-- A word without blanks at the front of a text stands in front of its first blank. -/
lemma prefix_append_blank_iff {w x r : List Char} (hw : ' ' ∉ w) :
    w <+: x ++ ' ' :: r ↔ w <+: x := by
  refine ⟨fun h => ?_, fun h => h.trans (List.prefix_append _ _)⟩
  rcases List.prefix_or_prefix_of_prefix h (List.prefix_append x _) with h' | ⟨u, rfl⟩
  · exact h'
  cases u with
  | nil => simp
  | cons c u =>
    rw [List.prefix_append_right_inj, List.cons_prefix_cons] at h
    exact absurd (by simp [h.1]) hw

/-- How a text begins is settled in front of its first blank. -/
lemma startsLikeHeader_blank (x r : String) :
    startsLikeHeader (x ++ " " ++ r) = startsLikeHeader x := by
  have hblank : ∀ w ∈ ["if", "while", "for"], ' ' ∉ w.toList := by decide
  rw [Bool.eq_iff_iff, startsLikeHeader, startsLikeHeader, List.any_eq_true, List.any_eq_true]
  refine exists_congr fun w => and_congr_right fun hw => ?_
  have htext : (x ++ " " ++ r).toList = x.toList ++ ' ' :: r.toList := by simp
  rw [List.isPrefixOf_iff_prefix, List.isPrefixOf_iff_prefix, htext]
  exact prefix_append_blank_iff (hblank w hw)

namespace Origin

/-- The labels that begin as those of headers do are those of headers and those of assignments to
names that begin so. -/
lemma startsLikeHeader_label {o : Origin}
    (h : ∀ t x v loc, o = .statement (.declare t x v loc) → t ∈ Lexeme.typeNames) :
    startsLikeHeader o.label = (o.isHeader || o.misleads) := by
  have hheader : ∀ l ∈ ["if (...)", Node.whileHeader.1, Node.forHeader.1], startsLikeHeader l := by
    decide
  have hmark : ∀ l ∈ "Return" :: FlowNode.marks, startsLikeHeader l = false := by decide
  cases o with
  | start | stop => decide
  | footer s =>
    exact hmark _ (by cases s <;> simp [label, FlowNode.marks, Node.whileFooter, Node.forFooter])
  | statement s =>
    cases s with
    | declare t x v loc =>
      have htype : ∀ t ∈ Lexeme.typeNames, startsLikeHeader t = false := by decide
      have hlabel : t ++ " " ++ x ++ " = ..." = t ++ " " ++ (x ++ " = ...") :=
        String.append_assoc ..
      rw [label, hlabel, startsLikeHeader_blank, htype t (h t x v loc rfl)]
      rfl
    | assign x v loc =>
      have hlabel : x ++ " = ..." = x ++ " " ++ "= ..." := String.toList_inj.1 (by simp)
      rw [label, hlabel, startsLikeHeader_blank]
      rfl
    | branch | whileLoop | forLoop => exact hheader _ (by simp [label])
    | _ => exact hmark "Return" (by simp)

end Origin

namespace Node

variable {ok : Literal → Prop} {n : Tree}

lemma IsStatement.statements (h : n.IsStatement ok) : ∀ s ∈ n.statements, s.IsStatement ok := by
  induction n using innerInduction with
  | step n ih =>
    rw [statements_eq h.wellSorted, List.forall_mem_append, List.forall_mem_flatMap]
    refine ⟨fun s hs => ?_, fun m hm => ih m hm (h.inner m hm)⟩
    obtain rfl := List.mem_singleton.1 (List.mem_of_mem_filter hs)
    exact h

lemma IsProgram.statements (h : n.IsProgram ok) : ∀ s ∈ n.statements, s.IsStatement ok := by
  cases n with
  | program ns loc =>
    rw [statements_eq h.wellSorted, List.forall_mem_append, List.forall_mem_flatMap]
    exact ⟨by simp [isStatement], fun m hm => IsStatement.statements (isStatements_iff.1 h m hm)⟩
  | _ => exact h.elim

end Node

namespace FlowGraph

open Dot Grammar

variable {depth : ℕ} {source : String} {t : Tree} {i : ℕ} {o : Origin}

/-- The node with a number is the one made for the origin at that place. -/
lemma exists_node_of_origin (ho : (origins t)[i]? = some o) :
    ∃ n ∈ (ofTree t).nodes, n.id = i ∧ n.Shows o := by
  obtain ⟨hi, ho⟩ := List.getElem?_eq_some_iff.1 ho
  obtain ⟨hlen, hshows⟩ := List.forall₂_iff_get.1 (shows_origins t)
  have hlt : i < (ofTree t).nodes.length := hlen ▸ hi
  have hid : ((ofTree t).nodes.map FlowNode.id)[i]? = some i := by
    rw [ofTree_numbered, List.getElem?_range' hlt, Nat.one_mul, Nat.zero_add]
  rw [List.getElem?_map, List.getElem?_eq_getElem hlt, Option.map_some, Option.some_inj] at hid
  have hshow := hshows i hlt hi
  rw [List.get_eq_getElem, List.get_eq_getElem, ho] at hshow
  exact ⟨_, List.getElem_mem hlt, hid, hshow⟩

/-- The statements of a program are those that have nodes. -/
lemma statement_mem_origins {s : Tree} (h : parse depth source = .ok t) :
    .statement s ∈ origins t ↔ s ∈ t.statements := by
  rw [← Node.statements_origins (isProgram_of_parse h).wellSorted, List.mem_filterMap]
  constructor
  · intro hmem
    exact ⟨_, by simpa [origins] using hmem, rfl⟩
  · rintro ⟨o, ho, hs⟩
    cases o with
    | statement s' =>
      obtain rfl : s' = s := Option.some.inj hs
      simp [origins, ho]
    | _ => cases hs

lemma mem_typeNames_of_origin (h : parse depth source = .ok t) (ho : o ∈ origins t) :
    ∀ u x v loc, o = .statement (.declare u x v loc) → u ∈ Lexeme.typeNames := by
  rintro u x v loc rfl
  have hdeclare := (isProgram_of_parse h).statements _ ((statement_mem_origins h).1 ho)
  cases v with
  | none => exact hdeclare.1
  | some v => exact hdeclare.1

/-- **Diamonds**: in every drawing of the graph of a program that was read, the diamonds are the
headers of decisions and loops and the nodes of assignments to names that begin with `if`, `while`
or `for`. So they are exactly the headers if and only if no such name is assigned to. -/
theorem diamonds_mark_headers_iff (h : parse depth source = .ok t) (title : String) :
    List.Forall₂ FlowNode.Shows (ofTree t).nodes (origins t) ∧
    (∀ i o, (origins t)[i]? = some o →
      (isDiamond ((ofTree t).toDot title) i ↔ o.isHeader ∨ o.misleads)) ∧
    ((∀ i o, (origins t)[i]? = some o → (isDiamond ((ofTree t).toDot title) i ↔ o.isHeader)) ↔
      ∀ x v loc, Node.assign x v loc ∈ t.walk → startsLikeHeader x = false) := by
  have hdiamond : ∀ i o, (origins t)[i]? = some o →
      (isDiamond ((ofTree t).toDot title) i ↔ o.isHeader ∨ o.misleads) := by
    intro i o ho
    obtain ⟨n, hn, rfl, hshows⟩ := exists_node_of_origin ho
    rw [isDiamond_ofTree hn, hshows.label, Origin.startsLikeHeader_label, Bool.or_eq_true]
    exact mem_typeNames_of_origin h (List.mem_of_getElem? ho)
  have hassign : ∀ {x v loc}, .statement (.assign x v loc) ∈ origins t ↔
      .assign x v loc ∈ t.walk := by
    intro x v loc
    rw [statement_mem_origins h, Node.statements, List.mem_filter]
    exact and_iff_left rfl
  refine ⟨shows_origins t, hdiamond, fun hexact x v loc hmem => ?_, fun hnames i o ho => ?_⟩
  · obtain ⟨i, hi⟩ := List.mem_iff_getElem?.1 (hassign.2 hmem)
    have hheader := (hdiamond i _ hi).symm.trans (hexact i _ hi)
    simpa [Origin.isHeader, Origin.misleads, Origin.statement?, Node.isControl] using hheader
  · rw [hdiamond i o ho, or_iff_left]
    fun_cases Origin.misleads o with
    | case1 x v loc => simp [hnames x v loc (hassign.1 (List.mem_of_getElem? ho))]
    | case2 => simp

def iffy : String := "float iffy; while (iffy < 2) iffy = iffy + 1;"

theorem iffy_diamonds_mark_headers : ∃ t, parse 9 iffy = .ok t ∧
    (origins t).map Origin.label =
      ["Start", "float iffy = ...", "while (...)", "iffy = ...", "End While", "End"] ∧
    (∀ i o, (origins t)[i]? = some o →
      (isDiamond ((ofTree t).toDot "iffy.c") i ↔ o.isHeader ∨ o.misleads)) := by
  have hread : (parse 9 iffy).map (fun t => (origins t).map Origin.label) =
      .ok ["Start", "float iffy = ...", "while (...)", "iffy = ...", "End While", "End"] := by
    decide +kernel
  obtain ⟨t, ht, hlabels⟩ := exists_of_map_parse hread
  exact ⟨t, ht, hlabels, (diamonds_mark_headers_iff ht "iffy.c").2.1⟩

/-- The node of the assignment is drawn as a diamond and is no header. -/
theorem iffy_not_header : ∃ t, parse 9 iffy = .ok t ∧
    ¬ ∀ i o, (origins t)[i]? = some o → (isDiamond ((ofTree t).toDot "") i ↔ o.isHeader) := by
  have hread : (parse 9 iffy).map (fun t =>
      (origins t)[3]?.map fun o : Origin => (o.label, o.isHeader)) =
      .ok (some ("iffy = ...", false)) := by
    decide +kernel
  obtain ⟨t, ht, hview⟩ := exists_of_map_parse hread
  obtain ⟨o, ho, hview⟩ := Option.map_eq_some_iff.1 hview
  obtain ⟨hlabel, hheader⟩ := Prod.mk.inj hview
  obtain ⟨n, hn, hid, hshows⟩ := exists_node_of_origin ho
  have hdiamond : isDiamond ((ofTree t).toDot "") 3 := by
    rw [← hid, isDiamond_ofTree hn, hshows.label, hlabel]
    decide
  refine ⟨t, ht, fun hexact => ?_⟩
  rw [(hexact 3 o ho).1 hdiamond] at hheader
  cases hheader

end FlowGraph

end Primer
