import Mathlib.Tactic
import Primer.Proofs.AcceptedProgram
import Primer.Proofs.TextShapes

/-!
What the rules of the grammar accept has its shape.

A rule that accepts has moved over a text. From the texts of its parts, one behind the other, comes
the text of the whole, and the places that it records are those where the parts begin and end.
-/

namespace Primer

namespace Cursor

structure Took (c : Cursor) (us : List Char) (c' : Cursor) : Prop where
  rest : c.rest = us ++ c'.rest
  pos : c'.pos = c.pos.advance us

variable {c c₁ c' : Cursor} {us vs : List Char}

lemma Took.refl (c : Cursor) : Took c [] c := ⟨rfl, rfl⟩

lemma Took.trans (h : Took c us c₁) (h' : Took c₁ vs c') : Took c (us ++ vs) c' := by
  refine ⟨?_, ?_⟩
  · rw [h.rest, h'.rest, List.append_assoc]
  · rw [h'.pos, h.pos, Position.advance_append]

lemma took_skip (c : Cursor) (n : ℕ) : Took c (c.rest.take n) (c.skip n) :=
  ⟨(List.take_append_drop n c.rest).symm, rfl⟩

end Cursor

/-! ### Rules move on over the text they take -/

namespace Rule

open Cursor

variable {α β : Type} {p q : Rule α}

def Moves (p : Rule α) : Prop := ∀ c a c', p c = .accept a c' → ∃ us, Took c us c'

namespace Moves

lemma pure (a : α) : Moves (Pure.pure a) := by
  intro c b c' h
  obtain ⟨-, rfl⟩ := pure_eq_accept.1 h
  exact ⟨[], .refl c⟩

lemma bind {f : α → Rule β} (hp : Moves p) (hf : ∀ a, Moves (f a)) : Moves (p >>= f) := by
  intro c b c' h
  obtain ⟨a, c₁, ha, hb⟩ := bind_eq_accept.1 h
  obtain ⟨us, hus⟩ := hp c a c₁ ha
  obtain ⟨vs, hvs⟩ := hf a c₁ b c' hb
  exact ⟨us ++ vs, hus.trans hvs⟩

lemma orElse (hp : Moves p) (hq : Moves q) : Moves (p <|> q) := by
  intro c a c' h
  rcases orElse_eq_accept.1 h with h | ⟨-, h⟩
  · exact hp c a c' h
  · exact hq c a c' h

lemma ignore (hp : Moves p) : Moves (Rule.ignore p) := by
  intro c u c' h
  obtain ⟨a, ha⟩ := ignore_eq_accept.1 h
  exact hp c a c' ha

lemma lexeme (measure : List Char → Option ℕ) : Moves (Rule.lexeme measure) := by
  intro c cs c' h
  unfold Rule.lexeme at h
  split at h
  · rename_i n _
    obtain ⟨-, rfl⟩ := Reply.accept.inj h
    exact ⟨_, took_skip c n⟩
  · cases h

lemma many (hp : Moves p) : Moves (Rule.many p) := by
  intro c as c' h
  have hrun := run_of_many h
  clear h
  induction hrun with
  | nil => exact ⟨[], .refl _⟩
  | cons ha _ ih =>
    obtain ⟨us, hus⟩ := hp _ _ _ ha
    obtain ⟨vs, hvs⟩ := ih
    exact ⟨us ++ vs, hus.trans hvs⟩

/-- What a rule takes is the text that is missing behind it. -/
lemma took (hp : Moves p) {a : α} {c c' : Cursor} {us : List Char} (h : p c = .accept a c')
    (hrest : c.rest = us ++ c'.rest) : Took c us c' := by
  obtain ⟨vs, hvs⟩ := hp c a c' h
  obtain rfl : us = vs := List.append_cancel_right (hrest.symm.trans hvs.rest)
  exact hvs

end Moves

def Finds (x : Rule α) (shape : Position → List Char → α → Prop) : Prop :=
  ∀ c a c', x c = .accept a c' → ∃ us, Took c us c' ∧ shape c.pos us a

end Rule

namespace Grammar

open Rule Cursor Lexeme Text

variable {c c₁ c' : Cursor} {u : Unit} {us vs : List Char}

/-! ### Tokens -/

lemma moves_sign (s : String) : Moves (sign s) := (Moves.lexeme _).ignore

lemma moves_word (w : String) : Moves (word w) := (Moves.lexeme _).ignore

lemma moves_textOf (measure : List Char → Option ℕ) : Moves (textOf measure) :=
  (Moves.lexeme _).bind fun _ => .pure _

lemma moves_gap : Moves gap := ((Moves.lexeme _).ignore.orElse (Moves.lexeme _).ignore).many.ignore

lemma moves_operator (ss : List String) : Moves (operator ss) := by
  induction ss with
  | nil => intro c op c' h; cases h
  | cons s ss ih => exact ((moves_sign s).bind fun _ => .pure _).orElse ih

lemma took_sign {s : String} (h : sign s c = .accept u c') : Took c s.toList c' :=
  (moves_sign s).took h (rest_of_sign h)

lemma took_word {w : String} (h : word w c = .accept u c') :
    Took c w.toList c' ∧ WordEnd c'.rest := by
  obtain ⟨cs, hcs⟩ := ignore_eq_accept.1 h
  obtain ⟨n, hn, rfl, hrest⟩ := lexeme_eq_accept hcs
  obtain ⟨htake, hend⟩ := take_of_word? hn
  have hdrop : c.rest.drop n = c'.rest :=
    List.append_cancel_left ((List.take_append_drop n c.rest).trans hrest)
  rw [htake] at hrest
  exact ⟨(moves_word w).took h hrest, hdrop ▸ hend⟩

lemma took_textOf {measure : List Char → Option ℕ} {x : String}
    (h : textOf measure c = .accept x c') :
    ∃ n, measure c.rest = some n ∧ x = String.ofList (c.rest.take n) ∧ Took c x.toList c' ∧
      c'.rest = c.rest.drop n := by
  obtain ⟨cs, c₁, hcs, hpure⟩ := bind_eq_accept.1 h
  obtain ⟨n, hn, rfl, hrest⟩ := lexeme_eq_accept hcs
  obtain ⟨rfl, rfl⟩ := pure_eq_accept.1 hpure
  have hdrop : c.rest.drop n = c₁.rest :=
    List.append_cancel_left ((List.take_append_drop n c.rest).trans hrest)
  exact ⟨n, hn, rfl, (moves_textOf measure).took h (by rwa [String.toList_ofList]), hdrop.symm⟩

lemma took_name {x : String} (h : name c = .accept x c') : Took c x.toList c' ∧ Node.IsName x := by
  obtain ⟨n, hn, rfl, htook, -⟩ := took_textOf h
  exact ⟨htook, isName_of_name? hn⟩

lemma took_typeName {t : String} (h : typeName c = .accept t c') :
    Took c t.toList c' ∧ t ∈ typeNames ∧ WordEnd c'.rest := by
  obtain ⟨n, hn, rfl, htook, hrest⟩ := took_textOf h
  obtain ⟨w, -, hword⟩ := List.exists_of_findSome?_eq_some hn
  exact ⟨htook, take_of_anyWord? hn, hrest ▸ (take_of_word? hword).2⟩

lemma took_equals (h : equals c = .accept u c') : Took c ['='] c' := by
  obtain ⟨_, c₁, hsign, habsent⟩ := bind_eq_accept.1 h
  obtain ⟨-, rfl⟩ := absent_eq_accept.1 habsent
  exact took_sign hsign

/-- A gap takes layout, up to a place where no more layout begins. At the very end of the text the
last comment may lack its line end. -/
lemma took_gap (h : gap c = .accept u c') :
    ∃ g, Took c g c' ∧ (c'.rest ≠ [] → Layout g) ∧ Solid c'.rest := by
  obtain ⟨g, hg, -, hlayout⟩ := layout_of_gap h
  exact ⟨g, moves_gap.took h hg, hlayout, stops_of_gap h⟩

/-- Between two tokens a gap is layout. -/
lemma layout_between (h : gap c = .accept u c₁) (hus : Took c₁ us c') (hne : us ≠ []) :
    ∃ g, Layout g ∧ Took c g c₁ := by
  obtain ⟨g, htook, hlayout, -⟩ := took_gap h
  refine ⟨g, hlayout ?_, htook⟩
  rw [hus.rest]
  simp [hne]

/-- A word of its own, with the place where it stands. -/
lemma took_leaf {measure : List Char → Option ℕ} {meaning : List Char → Option Span → Tree}
    {e : Tree} (h : leaf measure meaning c = .accept e c') :
    ∃ n cs, measure c.rest = some n ∧ cs = c.rest.take n ∧ Took c cs c' ∧
      e = meaning cs (some (.over c.pos cs)) := by
  obtain ⟨cs, c₁, hcs, hpure⟩ := located_bind_eq_accept.1 h
  obtain ⟨n, hn, htake, hrest⟩ := lexeme_eq_accept hcs
  obtain ⟨rfl, rfl⟩ := pure_eq_accept.1 hpure
  have htook := (Moves.lexeme measure).took hcs hrest
  refine ⟨n, cs, hn, htake, htook, ?_⟩
  rw [Span.over, htook.pos]

/-! ### What is read as an expression -/

section Expressions

variable {x : Rule Tree} {X : Shape}

lemma finds_paren (hx : Finds x X) (hX : ∀ {p us e}, X p us e → Firm us) :
    Finds (paren x) (OperandAt X) := by
  intro c e c' h
  simp only [paren, bind_eq_accept, pure_eq_accept] at h
  obtain ⟨_, c₁, hopen, _, c₂, hgap, e, c₃, he, _, c₄, hgap', _, c₅, hclose, rfl, rfl⟩ := h
  obtain ⟨us, hus, hshape⟩ := hx _ _ _ he
  obtain ⟨g, hg, htookg⟩ := layout_between hgap hus (hX hshape).ne_nil
  obtain ⟨k, hk, htookk⟩ := layout_between hgap' (took_sign hclose) (by decide)
  have htook := (took_sign hopen).trans
    (htookg.trans (hus.trans (htookk.trans (took_sign hclose))))
  rw [((took_sign hopen).trans htookg).pos] at hshape
  exact ⟨_, htook, .paren hg hshape hk⟩

lemma finds_primary (hx : Finds x X) (hX : ∀ {p us e}, X p us e → Firm us) :
    Finds (primary x) (OperandAt X) := by
  intro c e c' h
  simp only [primary, orElse_eq_accept] at h
  rcases h with h | ⟨-, h | ⟨-, h | ⟨-, h | ⟨-, h | ⟨-, h⟩⟩⟩⟩⟩
  · exact finds_paren hx hX c e c' h
  · obtain ⟨n, cs, hn, rfl, htook, rfl⟩ := took_leaf h
    exact ⟨_, htook, .literal (form_of_float? hn)⟩
  · obtain ⟨n, cs, hn, rfl, htook, rfl⟩ := took_leaf h
    exact ⟨_, htook, .literal (form_of_integer? hn)⟩
  · obtain ⟨n, cs, hn, rfl, htook, rfl⟩ := took_leaf h
    exact ⟨_, htook, .literal (form_of_string? hn)⟩
  · obtain ⟨n, cs, hn, rfl, htook, rfl⟩ := took_leaf h
    exact ⟨_, htook, .literal (form_of_boolean? hn)⟩
  · obtain ⟨n, cs, hn, rfl, htook, rfl⟩ := took_leaf h
    have hname := OperandAt.name (X := X) (p := c.pos) (isName_of_name? hn)
    rw [String.toList_ofList] at hname
    exact ⟨_, htook, hname⟩

lemma took_operator {ss : List String} {op : String} (h : operator ss c = .accept op c') :
    op ∈ ss ∧ Took c op.toList c' := by
  obtain ⟨hmem, hrest⟩ := operator_eq_accept h
  exact ⟨hmem, (moves_operator ss).took h hrest⟩

/-- A comment that begins with the division sign would have been taken by the gap before it. -/
lemma head_ne_slash {k r : List Char} (h : Solid ("/".toList ++ (k ++ r))) :
    k.head? ≠ some '/' := by
  intro hk
  cases k with
  | nil => cases hk
  | cons y k =>
    obtain rfl : y = '/' := by simpa using hk
    have hcomment := h.2
    simp [comment?] at hcomment

/-- Operators with operands behind a part that is joined already. -/
lemma levelAt_foldLeft {k : ℕ} (hx : Finds x X) (hX : ∀ {p us e}, X p us e → Firm us)
    {tails : List (String × Tree)} {e : Tree} (hrun : Run (tail (signs k) x) c₁ tails c')
    (htook : Took c us c₁) (he : LevelAt (signs k) X c.pos us e) :
    ∃ vs, Took c vs c' ∧ LevelAt (signs k) X c.pos vs (foldLeft e tails) := by
  induction hrun generalizing us e with
  | nil => exact ⟨us, htook, he⟩
  | @cons c₁ c₂ c₃ t tails ht _ ih =>
    simp only [tail, bind_eq_accept, pure_eq_accept] at ht
    obtain ⟨_, d₁, hgap, op, d₂, hop, _, d₃, hgap', r, d₄, hr, rfl, rfl⟩ := ht
    obtain ⟨hmem, htookop⟩ := took_operator hop
    obtain ⟨vs, hvs, hshape⟩ := hx _ _ _ hr
    obtain ⟨g, hg, htookg⟩ := layout_between hgap htookop (toList_ne_nil_of_mem_signs hmem)
    obtain ⟨m, hm, htookm⟩ := layout_between hgap' hvs (hX hshape).ne_nil
    obtain ⟨-, -, -, hsolid⟩ := took_gap hgap
    rw [htookop.rest, htookm.rest] at hsolid
    have hbefore := htook.trans (htookg.trans (htookop.trans htookm))
    rw [hbefore.pos] at hshape
    refine ih (htook.trans (htookg.trans (htookop.trans (htookm.trans hvs)))) ?_
    exact .more he hg hmem hm (by rintro rfl; exact head_ne_slash hsolid) hshape

lemma finds_level {k : ℕ} (hx : Finds x X) (hX : ∀ {p us e}, X p us e → Firm us) :
    Finds (level (signs k) x) (LevelAt (signs k) X) := by
  intro c e c' h
  simp only [level, bind_eq_accept, pure_eq_accept] at h
  obtain ⟨first, c₁, hfirst, tails, c₂, htails, rfl, rfl⟩ := h
  obtain ⟨us, hus, hshape⟩ := hx _ _ _ hfirst
  exact levelAt_foldLeft hx hX (run_of_many htails) hus (.first hshape)

end Expressions

/-- **Expressions**: what is read as an expression is the text of one. -/
theorem finds_expression (d : ℕ) : Finds (expression d) (ExprAt d) := by
  induction d with
  | zero => intro c e c' h; cases h
  | succ d ih =>
    have hterm := finds_level (k := 2) (finds_primary ih firm_expr) firm_operand
    have hsum := finds_level (k := 1) hterm (firm_level firm_operand)
    exact finds_level (k := 0) hsum (firm_level (firm_level firm_operand))

/-! ### What is read as a statement -/

section Statements

variable {d : ℕ}

/-- A gap that may be two gaps in the rule. -/
lemma layout_then_sign {c₂ c₃ : Cursor} {v w : Unit} {t : String} (ht : t.toList ≠ [])
    (h : gap c = .accept u c₁) (h' : gap c₁ = .accept v c₂) (hsign : sign t c₂ = .accept w c₃) :
    ∃ g, Layout g ∧ Took c (g ++ t.toList) c₃ := by
  obtain ⟨g', hg', htook'⟩ := layout_between h' (took_sign hsign) ht
  have hbehind := htook'.trans (took_sign hsign)
  obtain ⟨g, hg, htook⟩ := layout_between h hbehind (by simp [ht])
  refine ⟨g ++ g', hg.append hg', ?_⟩
  rw [List.append_assoc]
  exact htook.trans hbehind

lemma not_wordEnd_of_isName {x : String} (hx : Node.IsName x) (r : List Char) :
    ¬ WordEnd (x.toList ++ r) := by
  obtain ⟨y, cs, hcs, hy, -⟩ := exists_cons_of_isName hx
  simp [hcs, WordEnd, isWordChar, hy]

lemma finds_declaration : Finds (declaration (expression d)) (StmtAt (d + 1)) := by
  intro c n c' h
  obtain ⟨⟨t, x, value⟩, c₁, hparts, hpure⟩ := located_bind_eq_accept.1 h
  obtain ⟨rfl, rfl⟩ := pure_eq_accept.1 hpure
  simp only [bind_eq_accept, pure_eq_accept, Prod.mk.injEq] at hparts
  obtain ⟨t, c₁, htype, _, c₂, hgap, x, c₃, hname, _, c₄, hgap', value, c₅, hvalue, _, c₆, hgap₂,
    _, c₇, hend, ⟨rfl, rfl, rfl⟩, rfl⟩ := hparts
  obtain ⟨htook, ht, hword⟩ := took_typeName htype
  obtain ⟨htookx, hx⟩ := took_name hname
  obtain ⟨g, hg, htookg⟩ := layout_between hgap htookx (firm_of_isName hx).ne_nil
  have hne : g ≠ [] := by
    rintro rfl
    rw [htookg.rest, htookx.rest] at hword
    exact not_wordEnd_of_isName hx _ hword
  rcases optional_eq_accept.1 hvalue with ⟨v, rfl, hv⟩ | ⟨rfl, -, rfl⟩
  · simp only [initializer, bind_eq_accept] at hv
    obtain ⟨_, c₈, heq, _, c₉, hgap₃, hv⟩ := hv
    obtain ⟨vs, hvs, hshape⟩ := finds_expression d _ _ _ hv
    obtain ⟨k, hk, htookk⟩ := layout_between hgap' (took_equals heq) (by simp)
    obtain ⟨g', hg', htookg'⟩ := layout_between hgap₃ hvs (firm_expr hshape).ne_nil
    obtain ⟨k', hk', htookk'⟩ := layout_between hgap₂ (took_sign hend) (by decide)
    have hbefore := htook.trans (htookg.trans (htookx.trans (htookk.trans
      ((took_equals heq).trans htookg'))))
    have hall := htook.trans (htookg.trans (htookx.trans (htookk.trans
      ((took_equals heq).trans (htookg'.trans (hvs.trans (htookk'.trans (took_sign hend))))))))
    rw [hbefore.pos] at hshape
    refine ⟨_, hall, ?_⟩
    rw [hall.pos]
    exact StmtForm.declareAs ht hg hne hx hk hg' hk' hshape rfl
  · obtain ⟨k, hk, htookk⟩ := layout_then_sign (by decide) hgap' hgap₂ hend
    have hall := htook.trans (htookg.trans (htookx.trans htookk))
    refine ⟨_, hall, ?_⟩
    rw [hall.pos]
    exact StmtForm.declare ht hg hne hx hk rfl

lemma finds_assignment : Finds (assignment (expression d)) (StmtAt (d + 1)) := by
  intro c n c' h
  obtain ⟨⟨x, value⟩, c₁, hparts, hpure⟩ := located_bind_eq_accept.1 h
  obtain ⟨rfl, rfl⟩ := pure_eq_accept.1 hpure
  simp only [bind_eq_accept, pure_eq_accept, Prod.mk.injEq] at hparts
  obtain ⟨x, c₁, hname, _, c₂, hgap, _, c₃, heq, _, c₄, hgap', v, c₅, hv, _, c₆, hgap₂,
    _, c₇, hend, ⟨rfl, rfl⟩, rfl⟩ := hparts
  obtain ⟨htookx, hx⟩ := took_name hname
  obtain ⟨vs, hvs, hshape⟩ := finds_expression d _ _ _ hv
  obtain ⟨k, hk, htookk⟩ := layout_between hgap (took_equals heq) (by simp)
  obtain ⟨g', hg', htookg'⟩ := layout_between hgap' hvs (firm_expr hshape).ne_nil
  obtain ⟨k', hk', htookk'⟩ := layout_between hgap₂ (took_sign hend) (by decide)
  have hbefore := htookx.trans (htookk.trans ((took_equals heq).trans htookg'))
  have hall := htookx.trans (htookk.trans ((took_equals heq).trans (htookg'.trans
    (hvs.trans (htookk'.trans (took_sign hend))))))
  rw [hbefore.pos] at hshape
  refine ⟨_, hall, ?_⟩
  rw [hall.pos]
  exact StmtForm.assign hx hk hg' hk' hshape rfl

lemma finds_returnStatement : Finds (returnStatement (expression d)) (StmtAt (d + 1)) := by
  intro c n c' h
  obtain ⟨value, c₁, hparts, hpure⟩ := located_bind_eq_accept.1 h
  obtain ⟨rfl, rfl⟩ := pure_eq_accept.1 hpure
  simp only [bind_eq_accept, pure_eq_accept] at hparts
  obtain ⟨_, c₁, hword, value, c₂, hvalue, _, c₃, hgap, _, c₄, hend, rfl, rfl⟩ := hparts
  obtain ⟨htook, hwordEnd⟩ := took_word hword
  obtain ⟨k, hk, htookk⟩ := layout_between hgap (took_sign hend) (by decide)
  rcases optional_eq_accept.1 hvalue with ⟨v, rfl, hv⟩ | ⟨rfl, hreject, rfl⟩
  · obtain ⟨_, c₅, hgap', hv⟩ := bind_eq_accept.1 hv
    obtain ⟨vs, hvs, hshape⟩ := finds_expression d _ _ _ hv
    have hne := (firm_expr hshape).ne_nil
    obtain ⟨g, hg, htookg⟩ := layout_between hgap' hvs hne
    rw [(htookg.trans hvs).rest, wordEnd_append_iff (by simp [hne])] at hwordEnd
    have hall := htook.trans (htookg.trans (hvs.trans (htookk.trans (took_sign hend))))
    rw [(htook.trans htookg).pos] at hshape
    refine ⟨_, hall, ?_⟩
    rw [hall.pos]
    exact StmtForm.retValue hg hwordEnd hshape hk rfl
  · have hd : 0 < d := by
      rw [Nat.pos_iff_ne_zero]
      rintro rfl
      rcases bind_eq_reject.1 hreject with hreject | ⟨_, _, -, hdeep⟩
      · rw [hgap] at hreject
        cases hreject
      · cases hdeep
    have hall := htook.trans (htookk.trans (took_sign hend))
    refine ⟨_, hall, ?_⟩
    rw [hall.pos]
    exact StmtForm.ret hd hk rfl

lemma took_guarded {w : String} {e b : Tree} (hs : Finds (statement d) (StmtAt d))
    (h : guarded w (expression d) (statement d) c = .accept (e, b) c') :
    ∃ us, Took c us c' ∧ GuardAt w (ExprAt d) (StmtAt d) c.pos us e b := by
  simp only [guarded, bind_eq_accept, pure_eq_accept, Prod.mk.injEq] at h
  obtain ⟨_, c₁, hkeyword, _, c₂, hgap, _, c₃, hopen, _, c₄, hgap₁, e, c₅, he, _, c₆, hgap₂, _, c₇,
    hclose, _, c₈, hgap₃, b, c₉, hb, ⟨rfl, rfl⟩, rfl⟩ := h
  obtain ⟨us, hus, hshape⟩ := finds_expression d _ _ _ he
  obtain ⟨vs, hvs, hshape'⟩ := hs _ _ _ hb
  obtain ⟨g₁, hg₁, htook₁⟩ := layout_between hgap (took_sign hopen) (by decide)
  obtain ⟨g₂, hg₂, htook₂⟩ := layout_between hgap₁ hus (firm_expr hshape).ne_nil
  obtain ⟨g₃, hg₃, htook₃⟩ := layout_between hgap₂ (took_sign hclose) (by decide)
  obtain ⟨g₄, hg₄, htook₄⟩ := layout_between hgap₃ hvs (firm_stmt hshape').ne_nil
  have hword := (took_word hkeyword).1
  have hbefore := hword.trans (htook₁.trans ((took_sign hopen).trans htook₂))
  have hbetween := hword.trans (htook₁.trans ((took_sign hopen).trans (htook₂.trans (hus.trans
    (htook₃.trans ((took_sign hclose).trans htook₄))))))
  have hall := hword.trans (htook₁.trans ((took_sign hopen).trans (htook₂.trans (hus.trans
    (htook₃.trans ((took_sign hclose).trans (htook₄.trans hvs)))))))
  rw [hbefore.pos] at hshape
  rw [hbetween.pos] at hshape'
  exact ⟨_, hall, .mk hg₁ hg₂ hshape hg₃ hg₄ hshape'⟩

lemma finds_whileLoop (hs : Finds (statement d) (StmtAt d)) :
    Finds (whileLoop (expression d) (statement d)) (StmtAt (d + 1)) := by
  intro c n c' h
  obtain ⟨⟨e, b⟩, c₁, hguarded, hpure⟩ := located_bind_eq_accept.1 h
  obtain ⟨rfl, rfl⟩ := pure_eq_accept.1 hpure
  obtain ⟨us, hus, hguard⟩ := took_guarded hs hguarded
  refine ⟨us, hus, ?_⟩
  rw [hus.pos]
  exact StmtForm.whileLoop hguard

lemma took_branch {n : Tree} (hs : Finds (statement d) (StmtAt d))
    (h : branch (expression d) (statement d) c = .accept n c')
    (hsorted : n.IsStatement fun _ => True) :
    ∃ us, Took c us c' ∧ StmtAt (d + 1) c.pos us n := by
  obtain ⟨⟨⟨e, b⟩, otherwise⟩, c₁, hparts, hpure⟩ := located_bind_eq_accept.1 h
  obtain ⟨rfl, rfl⟩ := pure_eq_accept.1 hpure
  simp only [bind_eq_accept, pure_eq_accept, Prod.mk.injEq] at hparts
  obtain ⟨⟨e, b⟩, c₁, hguarded, otherwise, c₂, helse, ⟨⟨rfl, rfl⟩, rfl⟩, rfl⟩ := hparts
  obtain ⟨vs, hvs, hguard⟩ := took_guarded hs hguarded
  rcases optional_eq_accept.1 helse with ⟨o, rfl, ho⟩ | ⟨rfl, -, rfl⟩
  · simp only [elseClause, bind_eq_accept] at ho
    obtain ⟨_, c₃, hgap, _, c₄, hword, _, c₅, hgap', ho⟩ := ho
    obtain ⟨ws, hws, hshape⟩ := hs _ _ _ ho
    obtain ⟨htook, hend⟩ := took_word hword
    have hne := (firm_stmt hshape).ne_nil
    obtain ⟨g, hg, htookg⟩ := layout_between hgap htook (by decide)
    obtain ⟨k, hk, htookk⟩ := layout_between hgap' hws hne
    rw [(htookk.trans hws).rest, wordEnd_append_iff (by simp [hne])] at hend
    have hbefore := hvs.trans (htookg.trans (htook.trans htookk))
    have hall := hvs.trans (htookg.trans (htook.trans (htookk.trans hws)))
    rw [hbefore.pos] at hshape
    refine ⟨_, hall, ?_⟩
    rw [hall.pos]
    exact StmtForm.branchElse hguard hsorted.2.2.1 hg hk hend hshape rfl
  · refine ⟨vs, hvs, ?_⟩
    rw [hvs.pos]
    exact StmtForm.branch hguard

lemma rowAt_of_run {ns : List Tree} (hs : Finds (statement d) (StmtAt d))
    (h : Run (item (statement d)) c ns c') : ∃ us, Took c us c' ∧ RowAt (StmtAt d) c.pos us ns := by
  induction h with
  | nil => exact ⟨[], .refl _, .nil⟩
  | cons hn _ ih =>
    obtain ⟨_, c₃, hgap, hn⟩ := bind_eq_accept.1 hn
    obtain ⟨us, hus, hshape⟩ := hs _ _ _ hn
    obtain ⟨g, hg, htookg⟩ := layout_between hgap hus (firm_stmt hshape).ne_nil
    obtain ⟨vs, hvs, hrow⟩ := ih
    rw [htookg.pos] at hshape
    rw [(htookg.trans hus).pos] at hrow
    exact ⟨_, htookg.trans (hus.trans hvs), .cons hg hshape hrow⟩

/-- A statement after a gap takes something. -/
lemma progresses_item (hs : Finds (statement d) (StmtAt d)) :
    Progresses (item (statement d)) := by
  intro c n c' h
  obtain ⟨_, c₁, hgap, hn⟩ := bind_eq_accept.1 h
  obtain ⟨g, hg, -⟩ := took_gap hgap
  obtain ⟨us, hus, hshape⟩ := hs _ _ _ hn
  have hpos := List.length_pos_iff.2 (firm_stmt hshape).ne_nil
  rw [(hg.trans hus).rest]
  simp only [List.length_append]
  omega

lemma took_braced {ns : List Tree} (hs : Finds (statement d) (StmtAt d))
    (h : braced (statement d) c = .accept ns c') :
    ∃ us, Took c us c' ∧ BracedAt (StmtAt d) c.pos us ns := by
  simp only [braced, bind_eq_accept, pure_eq_accept] at h
  obtain ⟨_, c₁, hopen, ns, c₂, hns, _, c₃, hgap, _, c₄, hclose, rfl, rfl⟩ := h
  obtain ⟨us, hus, hrow⟩ := rowAt_of_run hs (run_of_many hns)
  obtain ⟨g, hg, htookg⟩ := layout_between hgap (took_sign hclose) (by decide)
  rw [(took_sign hopen).pos] at hrow
  exact ⟨_, (took_sign hopen).trans (hus.trans (htookg.trans (took_sign hclose))), .mk hrow hg⟩

/-- Between braces some statement is looked for, so a rule that gives up accepts none. -/
lemma braced_tooDeep {ns : List Tree} : braced tooDeep c ≠ .accept ns c' := by
  intro h
  simp only [braced, bind_eq_accept, pure_eq_accept] at h
  obtain ⟨_, c₁, hopen, ns, c₂, hns, _, c₃, hgap, _, c₄, hclose, rfl, rfl⟩ := h
  have hprogress : Progresses (item tooDeep) := by
    intro c n c' h
    obtain ⟨_, _, -, hn⟩ := bind_eq_accept.1 h
    cases hn
  rcases hprogress.stops hns with hreject | hnil
  · rcases bind_eq_reject.1 hreject with hreject | ⟨_, _, -, hdeep⟩
    · rw [hgap] at hreject
      cases hreject
    · cases hdeep
  · obtain ⟨g, hg, -⟩ := took_gap hgap
    rw [hg.rest, (took_sign hclose).rest] at hnil
    simp at hnil

end Statements

/-- **Statements**: what is read as a statement is the text of one. -/
theorem finds_statement (d : ℕ) : Finds (statement d) (StmtAt d) := by
  induction d with
  | zero => intro c n c' h; cases h
  | succ d ih =>
    intro c n c' h
    have hsorted := (soundStmt_statement (d + 1) _ _ _ h).sorted
    simp only [statement, statementOf, orElse_eq_accept] at h
    rcases h with h | ⟨-, h | ⟨-, h | ⟨-, h | ⟨-, h | ⟨-, h⟩⟩⟩⟩⟩
    · obtain ⟨ns, c₁, hns, hpure⟩ := located_bind_eq_accept.1 h
      obtain ⟨rfl, rfl⟩ := pure_eq_accept.1 hpure
      obtain ⟨us, hus, hbraced⟩ := took_braced ih hns
      have hd : 0 < d := by
        rw [Nat.pos_iff_ne_zero]
        rintro rfl
        exact braced_tooDeep hns
      refine ⟨us, hus, ?_⟩
      rw [hus.pos]
      exact StmtForm.block hd hbraced
    · exact took_branch ih h hsorted
    · exact finds_whileLoop ih _ _ _ h
    · exact finds_returnStatement _ _ _ h
    · exact finds_declaration _ _ _ h
    · exact finds_assignment _ _ _ h

lemma took_mainFunction {d : ℕ} {ns : List Tree}
    (h : mainFunction (statement d) c = .accept ns c') :
    ∃ us, Took c us c' ∧ MainAt (StmtAt d) c.pos us ns := by
  simp only [mainFunction, bind_eq_accept] at h
  obtain ⟨_, c₁, hint, _, c₂, hgap, _, c₃, hmain, _, c₄, hgap₁, _, c₅, hopen, _, c₆, hgap₂, _, c₇,
    hclose, _, c₈, hgap₃, hbraced⟩ := h
  obtain ⟨us, hus, hshape⟩ := took_braced (finds_statement d) hbraced
  obtain ⟨htook, hword⟩ := took_word hint
  have hname := (took_word hmain).1
  have hne : us ≠ [] := by
    cases hshape
    simp
  obtain ⟨g₁, hg₁, htook₁⟩ := layout_between hgap hname (by decide)
  obtain ⟨g₂, hg₂, htook₂⟩ := layout_between hgap₁ (took_sign hopen) (by decide)
  obtain ⟨g₃, hg₃, htook₃⟩ := layout_between hgap₂ (took_sign hclose) (by decide)
  obtain ⟨g₄, hg₄, htook₄⟩ := layout_between hgap₃ hus hne
  have hgap_ne : g₁ ≠ [] := by
    rintro rfl
    rw [htook₁.rest, hname.rest] at hword
    exact not_wordEnd_of_isName (by decide) _ hword
  have hbefore := htook.trans (htook₁.trans (hname.trans (htook₂.trans ((took_sign hopen).trans
    (htook₃.trans ((took_sign hclose).trans htook₄))))))
  have hall := htook.trans (htook₁.trans (hname.trans (htook₂.trans ((took_sign hopen).trans
    (htook₃.trans ((took_sign hclose).trans (htook₄.trans hus)))))))
  rw [hbefore.pos] at hshape
  exact ⟨_, hall, .mk hg₁ hgap_ne hg₂ hg₃ hg₄ hshape⟩

end Grammar

end Primer
