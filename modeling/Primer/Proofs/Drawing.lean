import Mathlib.Tactic
import Primer.Flow.Dot
import Primer.Proofs.FlowDegrees

/-!
Drawings, read line by line.

A drawing shows texts that a program chose, so any character may stand in them. The reader here
knows nothing of the graph: it goes through a line from left to right, changes sides at each double
quote, and undoes the escapes inside the quotes as it meets them. It gives back the texts that were
drawn, each behind its own key, and no text runs over the end of its line.
-/

namespace Primer

namespace Dot

/-! ### A reader of lines -/

/-- What a character stands for after a backslash. -/
def meaning? : Char → Option Char
  | '\\' => some '\\'
  | '"' => some '"'
  | 'n' => some '\n'
  | _ => none

/-- The parts of a line outside of double quotes and between them, in turn, from a place outside or
inside of them; the first part goes on to the next quote. There is no such reading if a quote stays
open, if the line ends, or if between quotes a backslash stands before a character that needs
none. -/
def parts : (inside : Bool) → List Char → Option (List Char × List (List Char))
  | true, [] => none
  | false, [] => some ([], [])
  | inside, '"' :: r => (parts (!inside) r).map fun p => ([], p.1 :: p.2)
  | true, '\\' :: c :: r => (meaning? c).bind fun d => (parts true r).map (Prod.map (d :: ·) id)
  | inside, c :: r => if c = '\n' then none else (parts inside r).map (Prod.map (c :: ·) id)

/-- The word in front of the equals sign that some characters end with. -/
def key (before : List Char) : String :=
  String.ofList ((before.reverse.drop 1).takeWhile Char.isAlpha).reverse

/-- The texts between quotes, each with the key in front of it. -/
def keyed (before : List Char) : List (List Char) → List (String × String)
  | text :: between :: ps => (key before, String.ofList text) :: keyed between ps
  | _ => []

/-- The attributes of a line that have a quoted text for their value. -/
def texts? (line : List Char) : Option (List (String × String)) :=
  (parts false line).map fun p => keyed p.1 p.2

def lines (text : String) : List (List Char) := text.toList.splitOn '\n'

/-! ### What the reader does with the pieces of a line -/

def Bare (cs : List Char) : Prop := ∀ c ∈ cs, c ≠ '"' ∧ c ≠ '\n'

instance (cs : List Char) : Decidable (Bare cs) := List.decidableBAll _ _

variable {cs ds r : List Char} {inside : Bool} {p : List Char × List (List Char)}

lemma Bare.append (h : Bare cs) (h' : Bare ds) : Bare (cs ++ ds) :=
  List.forall_mem_append.2 ⟨h, h'⟩

lemma isDigit_of_mem_toString {n : ℕ} {c : Char} (h : c ∈ (toString n).toList) : c.isDigit := by
  rw [Nat.toString_eq_repr, Nat.toList_repr] at h
  exact Nat.isDigit_of_mem_toDigits (by decide) (by decide) h

/-- A character that is no digit stands in no number. -/
lemma not_mem_toString {c : Char} (hc : c.isDigit = false) (n : ℕ) : c ∉ (toString n).toList := by
  intro h
  rw [isDigit_of_mem_toString h] at hc
  cases hc

lemma bare_toString (n : ℕ) : Bare (toString n).toList := by
  refine fun c hc => ⟨?_, ?_⟩
  · rintro rfl
    exact not_mem_toString (by decide) n hc
  · rintro rfl
    exact not_mem_toString (by decide) n hc

lemma parts_quote (inside : Bool) (r : List Char) :
    parts inside ('"' :: r) = (parts (!inside) r).map fun p => ([], p.1 :: p.2) := by
  cases inside <;> simp [parts]

lemma parts_backslash {c d : Char} (h : meaning? c = some d) (r : List Char) :
    parts true ('\\' :: c :: r) = (parts true r).map (Prod.map (d :: ·) id) := by
  rw [parts, h, Option.bind_some]

lemma parts_cons {c : Char} (hquote : c ≠ '"') (hescape : inside = true → c ≠ '\\')
    (hline : c ≠ '\n') (r : List Char) :
    parts inside (c :: r) = (parts inside r).map (Prod.map (c :: ·) id) := by
  cases inside with
  | false => simp [parts, hline]
  | true => simp [parts, hline, hescape rfl]

/-- What is read as a line is one line. -/
lemma newline_not_mem_of_parts (h : parts inside cs = some p) : '\n' ∉ cs := by
  fun_induction parts inside cs generalizing p with
  | case1 => cases h
  | case2 => simp
  | case3 inside r ih =>
    obtain ⟨q, hq, -⟩ := Option.map_eq_some_iff.1 h
    simpa using ih hq
  | case4 c r ih =>
    obtain ⟨d, hd, h⟩ := Option.bind_eq_some_iff.1 h
    obtain ⟨q, hq, -⟩ := Option.map_eq_some_iff.1 h
    have hc : '\n' ≠ c := by
      rintro rfl
      cases hd
    simpa [hc] using ih hq
  | case5 => cases h
  | case6 inside c r _ _ hline ih =>
    obtain ⟨q, hq, -⟩ := Option.map_eq_some_iff.1 h
    simpa [Ne.symm hline] using ih hq

lemma parts_bare_append (h : Bare cs) (r : List Char) :
    parts false (cs ++ r) = (parts false r).map (Prod.map (cs ++ ·) id) := by
  induction cs with
  | nil => exact Option.map_id'.symm
  | cons c cs ih =>
    obtain ⟨⟨hquote, hline⟩, hcs⟩ := List.forall_mem_cons.1 h
    rw [List.cons_append, parts_cons hquote (by simp) hline, ih hcs, Option.map_map]
    rfl

def escaped (c : Char) : List Char :=
  if c = '\\' then ['\\', '\\']
  else if c = '"' then ['\\', '"']
  else if c = '\n' then ['\\', 'n']
  else [c]

/-- The three replacements, one after the other, are one pass over the text: the later ones find
nothing in what the earlier ones have put in. -/
lemma toList_dotEscape (s : String) :
    (FlowGraph.dotEscape s).toList = s.toList.flatMap escaped := by
  simp only [FlowGraph.dotEscape, FlowGraph.replaceAll, String.toList_ofList, List.flatMap_assoc]
  refine congrArg (s.toList.flatMap ·) (funext fun c => ?_)
  unfold escaped
  split_ifs with hslash hquote hline
  · rfl
  · simp [hquote]
  · simp [hline]
  · simp [hquote, hline]

-- with the quotes first, their backslashes would be doubled and the quote left bare
example : FlowGraph.replaceAll '\\' ['\\', '\\'] (FlowGraph.replaceAll '"' ['\\', '"'] ['"']) =
    ['\\', '\\', '"'] := by decide

/-- The quote behind an escaped text is where its reading ends. -/
lemma parts_escaped (s r : List Char) :
    parts true (s.flatMap escaped ++ '"' :: r) =
      (parts false r).map fun p => (s, p.1 :: p.2) := by
  induction s with
  | nil => exact parts_quote true r
  | cons c s ih =>
    have hstep : parts true (escaped c ++ (s.flatMap escaped ++ '"' :: r)) =
        (parts true (s.flatMap escaped ++ '"' :: r)).map (Prod.map (c :: ·) id) := by
      unfold escaped
      split_ifs with hslash hquote hline
      · rw [hslash]
        exact parts_backslash rfl _
      · rw [hquote]
        exact parts_backslash rfl _
      · rw [hline]
        exact parts_backslash rfl _
      · exact parts_cons hquote (fun _ => hslash) hline _
    rw [List.flatMap_cons, List.append_assoc, hstep, ih, Option.map_map]
    rfl

lemma parts_bare (h : Bare cs) : parts false cs = some (cs, []) := by
  have hcs := parts_bare_append h []
  rw [List.append_nil] at hcs
  simp [hcs, parts]

/-- An attribute behind some characters is read as these, its text and what follows. -/
lemma parts_attribute (h : Bare cs) (s : String) (r : List Char) :
    parts false (cs ++ '"' :: ((FlowGraph.dotEscape s).toList ++ '"' :: r)) =
      (parts false r).map fun p => (cs, s.toList :: p.1 :: p.2) := by
  rw [parts_bare_append h, parts_quote, toList_dotEscape, Bool.not_false, parts_escaped,
    Option.map_map, Option.map_map]
  simp [Function.comp_def]

end Dot

namespace FlowGraph

open Dot FlowEdge

variable {t : Tree} {g : FlowGraph} {n : FlowNode} {e : FlowEdge}

/-! ### The lines of a drawing -/

def dotOpening (n : FlowNode) : String := "  N" ++ toString n.id ++ " [label="

lemma bare_dotOpening (n : FlowNode) : Bare (dotOpening n).toList := by
  rw [dotOpening, String.toList_append, String.toList_append]
  exact (Bare.append (by decide) (bare_toString _)).append (by decide)

lemma toList_dotNode (g : FlowGraph) (n : FlowNode) :
    (g.dotNode n).toList = (dotOpening n).toList ++ '"' :: ((dotEscape n.label).toList ++
      '"' :: (", tooltip=".toList ++ '"' :: ((dotEscape n.description).toList ++
        '"' :: ((g.dotStyle n).toList ++ "];".toList)))) := by
  simp [dotNode, dotAttribute, dotOpening]

lemma parts_dotNode (g : FlowGraph) (n : FlowNode) :
    parts false (g.dotNode n).toList =
      (parts false ((g.dotStyle n).toList ++ "];".toList)).map fun p =>
        ((dotOpening n).toList,
          n.label.toList :: ", tooltip=".toList :: n.description.toList :: p.1 :: p.2) := by
  rw [toList_dotNode, parts_attribute (bare_dotOpening n), parts_attribute (by decide),
    Option.map_map]
  rfl

lemma parts_dotStyle (g : FlowGraph) (n : FlowNode) :
    parts false ((g.dotStyle n).toList ++ "];".toList) = some (
      if n.id = g.start then
        (", style=filled, fillcolor=".toList, ["#ccffcc".toList, "];".toList])
      else if n.id = g.stop then
        (", style=filled, fillcolor=".toList, ["#ffcccc".toList, "];".toList])
      else if isDecision n then (", shape=diamond];".toList, [])
      else ("];".toList, [])) := by
  unfold dotStyle
  split_ifs <;> decide

def fill (g : FlowGraph) (n : FlowNode) : List (String × String) :=
  if n.id = g.start then [("fillcolor", "#ccffcc")]
  else if n.id = g.stop then [("fillcolor", "#ffcccc")]
  else []

lemma key_label (cs : List Char) : key (cs ++ " [label=".toList) = "label" := by
  rw [key, List.reverse_append]
  rfl

lemma key_dotOpening (n : FlowNode) : key (dotOpening n).toList = "label" := by
  rw [dotOpening, String.toList_append, key_label]

lemma texts?_dotNode (g : FlowGraph) (n : FlowNode) :
    texts? (g.dotNode n).toList =
      some (("label", n.label) :: ("tooltip", n.description) :: g.fill n) := by
  have hkey : key ", tooltip=".toList = "tooltip" := by decide
  have hfill : key ", style=filled, fillcolor=".toList = "fillcolor" := by decide
  rw [texts?, parts_dotNode, parts_dotStyle, Option.map_some, Option.map_some, fill]
  split_ifs <;> simp only [keyed, key_dotOpening, hkey, hfill, String.ofList_toList]

def dotArrow (e : FlowEdge) : String := "  N" ++ toString e.source ++ " -> N" ++ toString e.target

lemma bare_dotArrow (e : FlowEdge) : Bare (dotArrow e).toList := by
  simp only [dotArrow, String.toList_append]
  exact ((Bare.append (by decide) (bare_toString _)).append (by decide)).append (bare_toString _)

lemma dotEdge_unlabelled (h : e.label = none) : dotEdge e = dotArrow e ++ ";" := by
  simp [dotEdge, dotEdgeStyle, isBack, h, dotArrow]

/-- What follows the text of an edge has no text of its own. -/
lemma dotEdge_labelled {l : String} (h : e.label = some l) (hl : l ≠ "") :
    ∃ tail, Bare tail ∧ (dotEdge e).toList = ((dotArrow e).toList ++ " [label=".toList) ++
      '"' :: ((dotEscape l).toList ++ '"' :: tail) := by
  have hstyle : dotEdgeStyle e = dotAttribute "label" l ::
      (if e.isBack then ["style=dashed, color=blue, fontcolor=blue"]
        else if e.label == some exitLabel then ["color=red, fontcolor=red"] else []) := by
    simp [dotEdgeStyle, h, hl]
  simp only [dotEdge, hstyle, List.isEmpty_cons, Bool.false_eq_true, if_false]
  split_ifs
  · exact ⟨", style=dashed, color=blue, fontcolor=blue];".toList, by decide, by
      simp [dotAttribute, dotArrow, String.intercalate_cons_cons]⟩
  · exact ⟨", color=red, fontcolor=red];".toList, by decide, by
      simp [dotAttribute, dotArrow, String.intercalate_cons_cons]⟩
  · exact ⟨"];".toList, by decide, by simp [dotAttribute, dotArrow]⟩

lemma texts?_dotEdge (h : e.label ≠ some "") :
    texts? (dotEdge e).toList = some (e.label.toList.map ("label", ·)) := by
  cases hlabel : e.label with
  | none =>
    have hbare : Bare (dotEdge e).toList := by
      rw [dotEdge_unlabelled hlabel, String.toList_append]
      exact (bare_dotArrow e).append (by decide)
    simp [texts?, parts_bare hbare, keyed]
  | some l =>
    have hl : l ≠ "" := by
      rintro rfl
      exact h hlabel
    obtain ⟨tail, htail, hline⟩ := dotEdge_labelled hlabel hl
    have hopening : Bare ((dotArrow e).toList ++ " [label=".toList) :=
      (bare_dotArrow e).append (by decide)
    rw [texts?, hline, parts_attribute hopening, parts_bare htail]
    simp only [Option.map_some, keyed, key_label, String.ofList_toList, Option.toList_some,
      List.map_singleton]

/-- The texts that each line of a drawing shows, with their keys. -/
def shownTexts (g : FlowGraph) (title : String) : List (List (String × String)) :=
  [[]] ++ (if title.isEmpty then [] else [[("label", title)]]) ++ [[]] ++
    g.nodes.map (fun n => ("label", n.label) :: ("tooltip", n.description) :: g.fill n) ++
    g.edges.map (fun e => e.label.toList.map ("label", ·)) ++ [[]]

lemma texts?_title (title : String) :
    texts? ("  " ++ dotAttribute "label" title ++ ";").toList = some [("label", title)] := by
  have hline : ("  " ++ dotAttribute "label" title ++ ";").toList =
      "  label=".toList ++ '"' :: ((dotEscape title).toList ++ '"' :: ";".toList) := by
    simp [dotAttribute]
  have hkey : key "  label=".toList = "label" := by decide
  rw [texts?, hline, parts_attribute (by decide), parts_bare (by decide)]
  simp only [Option.map_some, keyed, hkey, String.ofList_toList]

example : texts? "  label=\"a\\\\\\\"b\\nc\";".toList = some [("label", "a\\\"b\nc")] := by decide

lemma texts?_dotLines (hlabels : ∀ e ∈ g.edges, e.label ≠ some "") (title : String) :
    (g.dotLines title).map (fun l => texts? l.toList) = (g.shownTexts title).map some := by
  have hfirst : texts? "digraph CFG \x7b".toList = some [] := by decide
  have hdefault :
      texts? "  node [shape=box, fontname=monospace, fontsize=10];".toList = some [] := by
    decide
  have hlast : texts? "\x7d".toList = some [] := by decide
  have hnodes : g.nodes.map (fun n => texts? (g.dotNode n).toList) = g.nodes.map
      fun n => some (("label", n.label) :: ("tooltip", n.description) :: g.fill n) :=
    List.map_congr_left fun n _ => texts?_dotNode g n
  have hedges : g.edges.map (fun e => texts? (dotEdge e).toList) =
      g.edges.map fun e => some (e.label.toList.map ("label", ·)) :=
    List.map_congr_left fun e he => texts?_dotEdge (hlabels e he)
  have htitle : (if title.isEmpty then [] else ["  " ++ dotAttribute "label" title ++ ";"]).map
      (fun l => texts? l.toList) =
        (if title.isEmpty then [] else [[("label", title)]]).map some := by
    split_ifs
    · rfl
    · exact congrArg ([·]) (texts?_title title)
  simp only [dotLines, shownTexts, List.map_append, htitle, List.map_map, Function.comp_def, hnodes,
    hedges, List.map_cons, List.map_nil, hfirst, hdefault, hlast]

/-- No line of a drawing is broken by a text in it. -/
lemma lines_toDot (hlabels : ∀ e ∈ g.edges, e.label ≠ some "") (title : String) :
    lines (g.toDot title) = (g.dotLines title).map String.toList := by
  have hline : ∀ l ∈ (g.dotLines title).map String.toList, '\n' ∉ l := by
    rw [List.forall_mem_map]
    intro l hl
    have hread : texts? l.toList ∈ (g.shownTexts title).map some := by
      rw [← texts?_dotLines hlabels]
      exact List.mem_map_of_mem hl
    obtain ⟨_, -, hread⟩ := List.mem_map.1 hread
    obtain ⟨p, hp, -⟩ := Option.map_eq_some_iff.1 hread.symm
    exact newline_not_mem_of_parts hp
  rw [lines, toDot, String.toList_intercalate]
  exact List.splitOn_intercalate '\n' hline (by simp [dotLines])

lemma label_ne_empty (he : e ∈ (ofTree t).edges) : e.label ≠ some "" := by
  intro hlabel
  rcases label_cases he hlabel with h | h
  · exact absurd h (by decide)
  · exact absurd h (by decide)

/-- **Drawings**: whatever texts a tree and a title hold, the drawing of the tree has a line for
each node and each edge, one for the title if it has one, and three more. Each line can be read:
every text in it ends at its own closing quote, and with its escapes undone from left to right it is
the label or the description of the node, the label of the edge or the title. The only other quoted
texts are the colours of the first and the last node. -/
theorem drawing_read_back (t : Tree) (title : String) :
    (lines ((ofTree t).toDot title)).length =
      3 + (ofTree t).nodes.length + (ofTree t).edges.length + (if title = "" then 0 else 1) ∧
    (lines ((ofTree t).toDot title)).map texts? = ((ofTree t).shownTexts title).map some := by
  have hlabels : ∀ e ∈ (ofTree t).edges, e.label ≠ some "" := fun e he => label_ne_empty he
  rw [lines_toDot hlabels]
  constructor
  · by_cases htitle : title = ""
    · simp [dotLines, htitle]
      omega
    · simp [dotLines, htitle]
      omega
  · rw [List.map_map]
    exact texts?_dotLines hlabels title

end FlowGraph

end Primer
