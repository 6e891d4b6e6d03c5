import Mathlib.Tactic
import Primer.Proofs.ProgramShapes

/-!
The places of nodes in the text that a program is read from.

Each node of a shape stands on a piece of the text, and its children stand in order on pieces of
that piece. A pair of parentheses belongs to the text but to no node, so the piece of an operator
begins where the piece of its left operand begins, which need not be where the operand's text does.
-/

namespace Primer

def Node.isStatementOrBlock {α : Type} : Node α → Bool
  | .declare .. | .assign .. | .branch .. | .whileLoop .. | .forLoop .. | .ret .. => true
  | .block .. => true
  | _ => false

namespace Grammar

open Rule Cursor Lexeme Text

variable {us vs u g a b : List Char} {p q : Position} {m n e : Tree} {ms ns : List Tree} {d D : ℕ}

/-- Nodes stand one behind the other on pieces of the text. -/
inductive InOrder : Position → List Char → List Tree → Prop
  | nil {p : Position} {us : List Char} : InOrder p us []
  | cons {p : Position} {g us vs : List Char} {m : Tree} {ms : List Tree}
    (hm : m.location = some (.over (p.advance g) us)) (h : InOrder (p.advance (g ++ us)) vs ms) :
    InOrder p (g ++ (us ++ vs)) (m :: ms)

/-- The text of a node that is a leaf spells it. -/
def LeafForm (us : List Char) : Tree → Prop
  | .literal v _ => v.Form us
  | .name x _ => us = x.toList
  | _ => True

structure Seated (D : ℕ) (p : Position) (us : List Char) (n : Tree) : Prop where
  location : n.location = some (.over p us)
  not_program : ∀ ns loc, n ≠ .program ns loc
  ne_nil : us ≠ []
  leaf : LeafForm us n
  children : InOrder p us n.children
  shape : n.isStatementOrBlock → ∃ d ≤ D, StmtAt d p us n

def Within (D : ℕ) (p : Position) (us : List Char) (n : Tree) : Prop :=
  ∃ a w b, us = a ++ (w ++ b) ∧ Seated D (p.advance a) w n

def Placed (D : ℕ) (p : Position) (us : List Char) (n : Tree) : Prop :=
  ∀ m ∈ n.walk, Within D p us m

/-- The nodes stand in order on pieces of the text, and all nodes below them on pieces of it. -/
structure Parts (D : ℕ) (p : Position) (us : List Char) (ms : List Tree) : Prop where
  order : InOrder p us ms
  placed : ∀ m ∈ ms, Placed D p us m

/-! ### Pieces of pieces -/

lemma InOrder.behind (a : List Char) (h : InOrder (p.advance a) us ms) :
    InOrder p (a ++ us) ms := by
  cases h with
  | nil => exact .nil
  | cons hm h =>
    rw [← Position.advance_append] at hm h
    rw [← List.append_assoc a]
    exact .cons hm (by rwa [List.append_assoc])

lemma InOrder.before (b : List Char) (h : InOrder p us ms) : InOrder p (us ++ b) ms := by
  induction h with
  | nil => exact .nil
  | cons hm _ ih =>
    rw [List.append_assoc, List.append_assoc]
    exact .cons hm ih

lemma Within.extend (a b : List Char) (h : Within D (p.advance a) us n) :
    Within D p (a ++ (us ++ b)) n := by
  obtain ⟨a', w, b', rfl, hn⟩ := h
  rw [← Position.advance_append] at hn
  exact ⟨a ++ a', w, b' ++ b, by simp, hn⟩

lemma Placed.extend (a b : List Char) (h : Placed D (p.advance a) us n) :
    Placed D p (a ++ (us ++ b)) n :=
  fun m hm => (h m hm).extend a b

lemma Placed.self (h : Placed D p us n) : Within D p us n :=
  h n (by rw [Node.walk_eq]; simp)

lemma parts_nil : Parts D p us [] := ⟨.nil, by simp⟩

lemma Parts.cons (a : List Char) (hm : Placed D (p.advance a) u m)
    (h : Parts D (p.advance (a ++ u)) b ms) : Parts D p (a ++ (u ++ b)) (m :: ms) := by
  refine ⟨?_, ?_⟩
  · obtain ⟨a', w, b', rfl, hw⟩ := hm.self
    have horder : InOrder (p.advance (a ++ a' ++ w)) (b' ++ b) ms := by
      refine InOrder.behind b' ?_
      simpa [Position.advance_append] using h.order
    have hlocation := hw.location
    rw [← Position.advance_append] at hlocation
    simpa using InOrder.cons hlocation horder
  · intro m' hm'
    rcases List.mem_cons.1 hm' with rfl | hm'
    · exact hm.extend a b
    · have hplaced := (h.placed m' hm').extend (a ++ u) []
      simpa using hplaced

lemma parts_single (a b : List Char) (hm : Placed D (p.advance a) u m)
    (hus : us = a ++ (u ++ b)) : Parts D p us [m] :=
  hus ▸ Parts.cons a hm parts_nil

lemma Parts.extend (a b : List Char) (h : Parts D (p.advance a) us ms) :
    Parts D p (a ++ (us ++ b)) ms :=
  ⟨(h.order.before b).behind a, fun m hm => (h.placed m hm).extend a b⟩

/-- A node that stands on a piece, with its children in order on pieces of that piece. -/
lemma placed_node (hn : Within D p us n) (h : ∀ m ∈ n.children, Placed D p us m) :
    Placed D p us n := by
  intro m hm
  rw [Node.walk_eq, List.mem_cons, List.mem_flatMap] at hm
  rcases hm with rfl | ⟨c, hc, hm⟩
  · exact hn
  · exact h c hc m hm

lemma within_self (h : Seated D p us n) : Within D p us n := ⟨[], us, [], by simp, h⟩

/-! ### Expressions -/

lemma placed_operand {X : Shape} (hX : ∀ {p us e}, X p us e → Placed D p us e)
    (h : OperandAt X p us e) : Placed D p us e := by
  cases h with
  | literal h =>
    refine placed_node (within_self ⟨rfl, by simp, h.ne_nil, h, .nil, ?_⟩) (by simp [Node.children])
    simp [Node.isStatementOrBlock]
  | name h =>
    refine placed_node (within_self ⟨rfl, by simp, (firm_of_isName h).ne_nil, rfl, .nil, ?_⟩)
      (by simp [Node.children])
    simp [Node.isStatementOrBlock]
  | @paren g us k e hg he hk => simpa using (hX he).extend ("(".toList ++ g) (k ++ ")".toList)

/-- An operator stands from the start of its left operand to the end of its right one. -/
lemma placed_binary (ws : List Char) {op : String} {l r : Tree} (hl : Placed D p us l)
    (hr : Placed D (p.advance (us ++ ws)) vs r) :
    Placed D p (us ++ (ws ++ vs)) (.binary op l r (Builder.joined l r)) := by
  obtain ⟨a, w, b, rfl, hw⟩ := hl.self
  obtain ⟨a', w', b', rfl, hw'⟩ := hr.self
  have hstop : ((p.advance (a ++ (w ++ b) ++ ws)).advance a').advance w' =
      (p.advance a).advance (w ++ (b ++ (ws ++ (a' ++ w')))) := by
    simp only [← Position.advance_append, List.append_assoc]
  have horder : InOrder (p.advance a) ([] ++ (w ++ ((b ++ (ws ++ a')) ++ (w' ++ [])))) [l, r] := by
    refine .cons hw.location (.cons ?_ .nil)
    rw [hw'.location]
    simp only [← Position.advance_append, List.append_assoc, List.nil_append]
  refine placed_node ⟨a, w ++ (b ++ (ws ++ (a' ++ w'))), b', by simp, ?_, nofun, ?_, trivial,
    ?_, ?_⟩ ?_
  · rw [Node.location, Builder.joined, hw.location, hw'.location]
    simp only [Span.over, hstop]
  · simp [hw.ne_nil]
  · simpa [Node.children] using horder
  · simp [Node.isStatementOrBlock]
  · intro m hm
    simp only [Node.children, List.mem_cons, List.not_mem_nil, or_false] at hm
    rcases hm with rfl | rfl
    · exact Placed.extend [] _ hl
    · simpa using Placed.extend (a ++ (w ++ b) ++ ws) [] hr

lemma placed_level {ss : List String} {X : Shape} (hX : ∀ {p us e}, X p us e → Placed D p us e)
    (h : LevelAt ss X p us e) : Placed D p us e := by
  induction h with
  | first h => exact hX h
  | @more us g k vs op l r _ _ _ _ _ hr ih =>
    simpa using placed_binary (g ++ (op.toList ++ k)) ih (by simpa using hX hr)

lemma placed_expr (h : ExprAt d p us e) : Placed D p us e := by
  induction d generalizing p us e with
  | zero => exact h.elim
  | succ d ih => exact placed_level (placed_level (placed_level (placed_operand ih))) h

/-! ### Statements -/

lemma placed_statement (hd : d ≤ D) (h : StmtAt d p us n)
    (hlocation : n.location = some (.over p us)) (hleaf : LeafForm us n)
    (hbelow : ∀ ns loc, n ≠ .program ns loc) (hparts : Parts D p us n.children) :
    Placed D p us n :=
  placed_node (within_self ⟨hlocation, hbelow, (firm_stmt h).ne_nil, hleaf, hparts.order,
    fun _ => ⟨d, hd, h⟩⟩) hparts.placed

/-- A condition and a body, and what follows them. -/
lemma parts_guard {w : String} (hS : ∀ {p us n}, StmtAt d p us n → Placed D p us n)
    (h : GuardAt w (ExprAt d) (StmtAt d) p us e n) (hrest : Parts D (p.advance us) vs ms) :
    Parts D p (us ++ vs) (e :: n :: ms) := by
  cases h with
  | @mk g₁ g₂ cs g₃ g₄ bs _ _ hg₁ hg₂ he hg₃ hg₄ hb =>
    have hbody : Parts D (p.advance ((w.toList ++ (g₁ ++ ("(".toList ++ g₂))) ++ cs))
        ((g₃ ++ (")".toList ++ g₄)) ++ (bs ++ vs)) (n :: ms) := by
      refine Parts.cons _ (hS ?_) ?_
      · simpa [← Position.advance_append] using hb
      · simpa [← Position.advance_append] using hrest
    simpa using Parts.cons _ (placed_expr he) hbody

lemma parts_row (hS : ∀ {p us n}, StmtAt d p us n → Placed D p us n)
    (h : RowAt (StmtAt d) p us ns) : Parts D p us ns := by
  induction h with
  | nil => exact parts_nil
  | cons hg hn _ ih => exact Parts.cons _ (hS hn) ih

lemma parts_braced (hS : ∀ {p us n}, StmtAt d p us n → Placed D p us n)
    (h : BracedAt (StmtAt d) p us ns) : Parts D p us ns := by
  cases h with
  | mk h hg => exact (parts_row hS h).extend _ _

lemma placed_stmt (hd : d ≤ D) (h : StmtAt d p us n) : Placed D p us n := by
  induction d generalizing p us n with
  | zero => exact h.elim
  | succ d ih =>
    have hS : ∀ {p us n}, StmtAt d p us n → Placed D p us n := ih (by omega)
    cases h with
    | declare ht hg hne hx hk hus =>
      exact placed_statement hd (StmtForm.declare ht hg hne hx hk hus) rfl trivial nofun parts_nil
    | @declareAs g k g' vs k' t x v ht hg hne hx hk hg' hk' hv hus =>
      have hparts : Parts D p us [v] :=
        parts_single _ (k' ++ ";".toList) (placed_expr hv) (by simpa using hus)
      exact placed_statement hd (StmtForm.declareAs ht hg hne hx hk hg' hk' hv hus) rfl trivial
        nofun hparts
    | @assign k g' vs k' x v hx hk hg' hk' hv hus =>
      have hparts : Parts D p us [v] :=
        parts_single _ (k' ++ ";".toList) (placed_expr hv) (by simpa using hus)
      exact placed_statement hd (StmtForm.assign hx hk hg' hk' hv hus) rfl trivial nofun hparts
    | branch h =>
      have hparts : Parts D p (us ++ []) [_, _] := parts_guard hS h parts_nil
      rw [List.append_nil] at hparts
      exact placed_statement hd (StmtForm.branch h) rfl trivial nofun hparts
    | @branchElse vs g k ws e b o h hopen hg hk hend ho hus =>
      have helse : Parts D (p.advance vs) (g ++ ("else".toList ++ (k ++ ws))) [o] :=
        parts_single (g ++ ("else".toList ++ k)) [] (hS (by rwa [← Position.advance_append]))
          (by simp)
      exact placed_statement hd (StmtForm.branchElse h hopen hg hk hend ho hus) rfl trivial nofun
        (hus ▸ parts_guard hS h helse)
    | whileLoop h =>
      have hparts : Parts D p (us ++ []) [_, _] := parts_guard hS h parts_nil
      rw [List.append_nil] at hparts
      exact placed_statement hd (StmtForm.whileLoop h) rfl trivial nofun hparts
    | ret hd' hg hus =>
      exact placed_statement hd (StmtForm.ret hd' hg hus) rfl trivial nofun parts_nil
    | @retValue g vs k v hg hend hv hk hus =>
      have hparts : Parts D p us [v] :=
        parts_single _ (k ++ ";".toList) (placed_expr hv) (by simpa using hus)
      exact placed_statement hd (StmtForm.retValue hg hend hv hk hus) rfl trivial nofun hparts
    | block hd' h =>
      exact placed_statement hd (StmtForm.block hd' h) rfl trivial nofun (parts_braced hS h)

/-! ### Programs -/

lemma parts_body (h : BodyAt d p us ns) : Parts d p us ns := by
  have hS : ∀ {p us n}, StmtAt d p us n → Placed d p us n := placed_stmt le_rfl
  rcases h with h | h
  · cases h with
    | @mk g₁ g₂ g₃ g₄ us ns hg₁ hne hg₂ hg₃ hg₄ h =>
      simpa using (parts_braced hS h).extend _ []
  · exact parts_row hS h

/-- **Places**: a program that was read from a text stands on all of it, and its statements in order
on pieces of it. -/
theorem parts_of_parse {depth : ℕ} {source : String} {t : Tree} (h : parse depth source = .ok t) :
    ∃ ns, t = .program ns (some (.over .initial source.toList)) ∧
      Parts (depth + 1) .initial source.toList ns := by
  obtain ⟨c, hprogram, hend⟩ := program_of_parse h
  obtain ⟨g, us, k, ns, hread, rfl⟩ := programRead_of_accept hprogram
  have htext : source.toList = g ++ (us ++ k) := by
    have := hread.took.rest
    rwa [hend, List.append_nil] at this
  refine ⟨ns, ?_, ?_⟩
  · rw [htext]
    rfl
  · rw [htext]
    exact (parts_body (hread.body.imp_right And.left)).extend g k

end Grammar

end Primer
