import Mathlib.Tactic
import Primer.Proofs.AcceptedExpression

/-!
The shapes of texts, with places.

A shape says which texts, standing at which position, are read as which tree. The shapes here follow
the grammar and leave out all that its rules do to find their way: what stands between two tokens is
layout, the places in the tree are those of the text, and where two words would run into one another
something stands between them.
-/

namespace Primer

def Span.over (p : Position) (us : List Char) : Span := ⟨p, p.advance us⟩

namespace Grammar

open Lexeme Text

variable {us : List Char}

lemma slice_over (before us rest : List Char) :
    slice (before ++ (us ++ rest)) (.over (Position.initial.advance before) us) = us := by
  simp [slice, Span.over, Position.offset_advance, Position.initial]

/-! ### The shapes of expressions -/

/-- Which texts at which positions are written for which trees. -/
abbrev Shape := Position → List Char → Tree → Prop

/-- An operand around what stands in parentheses, which leave no trace in the tree. -/
inductive OperandAt (X : Shape) : Position → List Char → Tree → Prop
  | literal {p : Position} {v : Literal} {cs : List Char} (h : v.Form cs) :
    OperandAt X p cs (.literal v (some (.over p cs)))
  | name {p : Position} {x : String} (h : Node.IsName x) :
    OperandAt X p x.toList (.name x (some (.over p x.toList)))
  | paren {p : Position} {g us k : List Char} {e : Tree} (hg : Layout g)
    (he : X (p.advance ("(".toList ++ g)) us e) (hk : Layout k) :
    OperandAt X p ("(".toList ++ (g ++ (us ++ (k ++ ")".toList)))) e

/-- Operands joined from left to right. A comment cannot stand right behind a division sign. -/
inductive LevelAt (ss : List String) (X : Shape) : Position → List Char → Tree → Prop
  | first {p : Position} {us : List Char} {e : Tree} (h : X p us e) : LevelAt ss X p us e
  | more {p : Position} {us g k vs : List Char} {op : String} {l r : Tree}
    (hl : LevelAt ss X p us l) (hg : Layout g) (hop : op ∈ ss) (hk : Layout k)
    (hslash : op = "/" → k.head? ≠ some '/')
    (hr : X (p.advance (us ++ (g ++ (op.toList ++ k)))) vs r) :
    LevelAt ss X p (us ++ (g ++ (op.toList ++ (k ++ vs)))) (.binary op l r (Builder.joined l r))

def ExprAt : ℕ → Shape
  | 0 => fun _ _ _ => False
  | d + 1 => LevelAt (signs 0) (LevelAt (signs 1) (LevelAt (signs 2) (OperandAt (ExprAt d))))

lemma toList_ne_nil_of_mem_signs {j : ℕ} {op : String} (h : op ∈ signs j) : op.toList ≠ [] := by
  intro hnil
  simpa [hnil] using length_of_mem_signs h

/-- The text begins with a character that neither begins layout nor goes on with a sign. -/
def Firm (us : List Char) : Prop :=
  ∃ c r, us = c :: r ∧ isBlank c = false ∧ c ∉ ['/', '*', '=']

lemma Firm.ne_nil (h : Firm us) : us ≠ [] := by
  obtain ⟨c, r, rfl, -⟩ := h
  simp

lemma Firm.append (h : Firm us) (r : List Char) : Firm (us ++ r) := by
  obtain ⟨c, cs, rfl, hc⟩ := h
  exact ⟨c, cs ++ r, rfl, hc⟩

lemma Firm.solid (h : Firm us) : Solid us := by
  obtain ⟨c, cs, rfl, hb, hc⟩ := h
  exact solid_cons hb fun hslash => hc (by simp [hslash])

lemma wordEnd_append_iff {r : List Char} (hne : us ≠ []) : WordEnd (us ++ r) ↔ WordEnd us := by
  cases us with
  | nil => exact absurd rfl hne
  | cons y us => rfl

lemma firm_of_isLetter {x : Char} {r : List Char} (h : isLetter x) : Firm (x :: r) := by
  refine ⟨x, r, rfl, ?_, ?_⟩
  · rw [isLetter_iff] at h
    simp [isBlank]
    omega
  · simp only [List.mem_cons, List.not_mem_nil, or_false, not_or]
    exact ⟨ne_of_isLetter h (by decide), ne_of_isLetter h (by decide), ne_of_isLetter h (by decide)⟩

lemma firm_of_isName {x : String} (h : Node.IsName x) : Firm x.toList := by
  obtain ⟨y, r, hx, hy, -⟩ := exists_cons_of_isName h
  rw [hx]
  exact firm_of_isLetter hy

lemma solid_name {x : String} (h : Node.IsName x) (r : List Char) : Solid (x.toList ++ r) :=
  ((firm_of_isName h).append r).solid

/-- What a literal may begin with. -/
lemma exists_head_literal {v : Literal} {cs : List Char} (h : v.Form cs) :
    ∃ x r, cs = x :: r ∧ (x = '-' ∨ isDigit x ∨ x = '.' ∨ x = '"' ∨ isLetter x) := by
  cases h with
  | int minus hds =>
    obtain ⟨hne, hds⟩ := hds
    cases minus with
    | true => exact ⟨'-', _, rfl, Or.inl rfl⟩
    | false =>
      obtain ⟨x, r, rfl⟩ := List.exists_cons_of_ne_nil hne
      exact ⟨x, r, rfl, Or.inr (Or.inl (hds x (by simp)))⟩
  | float minus hcs =>
    cases minus with
    | true => exact ⟨'-', _, rfl, Or.inl rfl⟩
    | false =>
      obtain ⟨x, r, rfl, hx⟩ := Reading.exists_head_fraction hcs
      exact ⟨x, r, rfl, by tauto⟩
  | text hcs => exact ⟨'"', _, rfl, by simp⟩
  | bool b =>
    cases b with
    | true => exact ⟨'t', "rue".toList, rfl, by decide⟩
    | false => exact ⟨'f', "alse".toList, rfl, by decide⟩

lemma firm_literal {v : Literal} {cs : List Char} (h : v.Form cs) : Firm cs := by
  obtain ⟨x, r, rfl, hx⟩ := exists_head_literal h
  rcases hx with rfl | hx | rfl | rfl | hx
  · exact ⟨_, r, rfl, by decide, by decide⟩
  · refine ⟨x, r, rfl, Reading.not_isBlank_of_isDigit hx, ?_⟩
    simp only [List.mem_cons, List.not_mem_nil, or_false, not_or]
    exact ⟨ne_of_isDigit hx (by decide), ne_of_isDigit hx (by decide), ne_of_isDigit hx (by decide)⟩
  · exact ⟨_, r, rfl, by decide, by decide⟩
  · exact ⟨_, r, rfl, by decide, by decide⟩
  · exact firm_of_isLetter hx

lemma firm_operand {X : Shape} {p : Position} {e : Tree} (h : OperandAt X p us e) : Firm us := by
  cases h with
  | literal h => exact firm_literal h
  | name h => exact firm_of_isName h
  | paren hg he hk => exact ⟨'(', _, rfl, by decide, by decide⟩

lemma firm_level {ss : List String} {X : Shape} (hX : ∀ {p us e}, X p us e → Firm us)
    {p : Position} {e : Tree} (h : LevelAt ss X p us e) : Firm us := by
  induction h with
  | first h => exact hX h
  | more _ _ _ _ _ _ ih => exact ih.append _

lemma firm_expr {d : ℕ} {p : Position} {e : Tree} (h : ExprAt d p us e) : Firm us := by
  cases d with
  | zero => exact h.elim
  | succ d => exact firm_level (firm_level (firm_level firm_operand)) h

/-! ### The shapes of statements -/

inductive GuardAt (w : String) (X S : Shape) : Position → List Char → Tree → Tree → Prop
  | mk {p : Position} {g₁ g₂ us g₃ g₄ vs : List Char} {e b : Tree} (hg₁ : Layout g₁)
    (hg₂ : Layout g₂) (he : X (p.advance (w.toList ++ (g₁ ++ ("(".toList ++ g₂)))) us e)
    (hg₃ : Layout g₃) (hg₄ : Layout g₄)
    (hb : S (p.advance (w.toList ++ (g₁ ++ ("(".toList ++ (g₂ ++ (us ++ (g₃ ++
      (")".toList ++ g₄)))))))) vs b) :
    GuardAt w X S p (w.toList ++ (g₁ ++ ("(".toList ++ (g₂ ++ (us ++ (g₃ ++
      (")".toList ++ (g₄ ++ vs)))))))) e b

inductive RowAt (S : Shape) : Position → List Char → List Tree → Prop
  | nil {p : Position} : RowAt S p [] []
  | cons {p : Position} {g us vs : List Char} {n : Tree} {ns : List Tree} (hg : Layout g)
    (hn : S (p.advance g) us n) (h : RowAt S (p.advance (g ++ us)) vs ns) :
    RowAt S p (g ++ (us ++ vs)) (n :: ns)

inductive BracedAt (S : Shape) : Position → List Char → List Tree → Prop
  | mk {p : Position} {us g : List Char} {ns : List Tree}
    (h : RowAt S (p.advance "\x7b".toList) us ns) (hg : Layout g) :
    BracedAt S p ("\x7b".toList ++ (us ++ (g ++ "\x7d".toList))) ns

/-- A statement around smaller ones, with `d` levels for what stands inside. A block and an empty
return look for something inside in any case, and so need a level for it. -/
inductive StmtForm (d : ℕ) (S : Shape) : Position → List Char → Tree → Prop
  | declare {p : Position} {us g k : List Char} {t x : String} (ht : t ∈ typeNames)
    (hg : Layout g) (hne : g ≠ []) (hx : Node.IsName x) (hk : Layout k)
    (hus : us = t.toList ++ (g ++ (x.toList ++ (k ++ ";".toList)))) :
    StmtForm d S p us (.declare t x none (some (.over p us)))
  | declareAs {p : Position} {us g k g' vs k' : List Char} {t x : String} {v : Tree}
    (ht : t ∈ typeNames) (hg : Layout g) (hne : g ≠ []) (hx : Node.IsName x) (hk : Layout k)
    (hg' : Layout g') (hk' : Layout k')
    (hv : ExprAt d (p.advance (t.toList ++ (g ++ (x.toList ++ (k ++ ("=".toList ++ g')))))) vs v)
    (hus : us = t.toList ++ (g ++ (x.toList ++ (k ++ ("=".toList ++ (g' ++ (vs ++ (k' ++
      ";".toList)))))))) :
    StmtForm d S p us (.declare t x (some v) (some (.over p us)))
  | assign {p : Position} {us k g' vs k' : List Char} {x : String} {v : Tree}
    (hx : Node.IsName x) (hk : Layout k) (hg' : Layout g') (hk' : Layout k')
    (hv : ExprAt d (p.advance (x.toList ++ (k ++ ("=".toList ++ g')))) vs v)
    (hus : us = x.toList ++ (k ++ ("=".toList ++ (g' ++ (vs ++ (k' ++ ";".toList)))))) :
    StmtForm d S p us (.assign x v (some (.over p us)))
  | branch {p : Position} {us : List Char} {e b : Tree}
    (h : GuardAt "if" (ExprAt d) S p us e b) :
    StmtForm d S p us (.branch e b none (some (.over p us)))
  | branchElse {p : Position} {us vs g k ws : List Char} {e b o : Tree}
    (h : GuardAt "if" (ExprAt d) S p vs e b) (hopen : ¬ b.EndsOpen) (hg : Layout g)
    (hk : Layout k) (hend : WordEnd (k ++ ws))
    (ho : S (p.advance (vs ++ (g ++ ("else".toList ++ k)))) ws o)
    (hus : us = vs ++ (g ++ ("else".toList ++ (k ++ ws)))) :
    StmtForm d S p us (.branch e b (some o) (some (.over p us)))
  | whileLoop {p : Position} {us : List Char} {e b : Tree}
    (h : GuardAt "while" (ExprAt d) S p us e b) :
    StmtForm d S p us (.whileLoop e b (some (.over p us)))
  | ret {p : Position} {us g : List Char} (hd : 0 < d) (hg : Layout g)
    (hus : us = "return".toList ++ (g ++ ";".toList)) :
    StmtForm d S p us (.ret none (some (.over p us)))
  | retValue {p : Position} {us g vs k : List Char} {v : Tree} (hg : Layout g)
    (hend : WordEnd (g ++ vs)) (hv : ExprAt d (p.advance ("return".toList ++ g)) vs v)
    (hk : Layout k) (hus : us = "return".toList ++ (g ++ (vs ++ (k ++ ";".toList)))) :
    StmtForm d S p us (.ret (some v) (some (.over p us)))
  | block {p : Position} {us : List Char} {ns : List Tree} (hd : 0 < d)
    (h : BracedAt S p us ns) : StmtForm d S p us (.block ns (some (.over p us)))

def StmtAt : ℕ → Shape
  | 0 => fun _ _ _ => False
  | d + 1 => StmtForm d (StmtAt d)

inductive MainAt (S : Shape) : Position → List Char → List Tree → Prop
  | mk {p : Position} {g₁ g₂ g₃ g₄ us : List Char} {ns : List Tree} (hg₁ : Layout g₁)
    (hne : g₁ ≠ []) (hg₂ : Layout g₂) (hg₃ : Layout g₃) (hg₄ : Layout g₄)
    (h : BracedAt S (p.advance ("int".toList ++ (g₁ ++ ("main".toList ++ (g₂ ++ ("(".toList ++
      (g₃ ++ (")".toList ++ g₄)))))))) us ns) :
    MainAt S p ("int".toList ++ (g₁ ++ ("main".toList ++ (g₂ ++ ("(".toList ++
      (g₃ ++ (")".toList ++ (g₄ ++ us)))))))) ns

lemma firm_of_mem_keywords {w : String} (h : w ∈ keywords) : Firm w.toList := by
  have hall : ∀ w ∈ keywords, w.toList.head?.any isLetter := by decide
  obtain ⟨y, hy, hletter⟩ := (Option.any_eq_true _ _).1 (hall w h)
  obtain ⟨r, hr⟩ := List.head?_eq_some_iff.1 hy
  rw [hr]
  exact firm_of_isLetter hletter

lemma firm_guard {w : String} {X S : Shape} {p : Position} {e b : Tree} (hw : w ∈ keywords)
    (h : GuardAt w X S p us e b) : Firm us := by
  cases h
  exact (firm_of_mem_keywords hw).append _

lemma firm_stmtForm {d : ℕ} {S : Shape} {p : Position} {n : Tree} (h : StmtForm d S p us n) :
    Firm us := by
  cases h with
  | declare ht hg hne hx hk hus =>
    exact hus ▸ (firm_of_mem_keywords (List.mem_append_left _ ht)).append _
  | declareAs ht hg hne hx hk hg' hk' hv hus =>
    exact hus ▸ (firm_of_mem_keywords (List.mem_append_left _ ht)).append _
  | assign hx hk hg' hk' hv hus => exact hus ▸ (firm_of_isName hx).append _
  | branch h => exact firm_guard (by decide) h
  | branchElse h hopen hg hk hend ho hus => exact hus ▸ (firm_guard (by decide) h).append _
  | whileLoop h => exact firm_guard (by decide) h
  | ret hd hg hus => exact hus ▸ (firm_of_mem_keywords (by decide)).append _
  | retValue hg hend hv hk hus => exact hus ▸ (firm_of_mem_keywords (by decide)).append _
  | block hd h =>
    cases h
    exact ⟨'\x7b', _, rfl, by decide, by decide⟩

lemma firm_stmt {d : ℕ} {p : Position} {n : Tree} (h : StmtAt d p us n) : Firm us := by
  cases d with
  | zero => exact h.elim
  | succ d => exact firm_stmtForm h

end Grammar

end Primer
