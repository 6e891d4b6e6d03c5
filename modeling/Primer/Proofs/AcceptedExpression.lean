import Mathlib.Tactic
import Primer.Proofs.RuleChoice
import Primer.Proofs.WordForms

/-!
What a text contains where an expression was read.

The tree of an expression says which tokens stood in the text, up to the form of its literals and
to parentheses around whole expressions. Where the rules accept, the text is made of such tokens
and layout, and of nothing else.
-/

namespace Primer.Grammar

open Rule Lexeme

variable {c c' : Cursor} {e : Tree} {ts : List String} {k : ℕ} {u : Unit}

/-- The tokens of an expression that stands where operators of level `k` or a tighter one are taken.
A literal may have any of its forms, and parentheses may stand around any whole expression. -/
inductive WrittenExpr : ℕ → Tree → List String → Prop
  | literal {k : ℕ} {v : Literal} {loc : Option Span} {cs : List Char} (h : v.Form cs) :
    WrittenExpr k (.literal v loc) [String.ofList cs]
  | name {k : ℕ} {x : String} {loc : Option Span} : WrittenExpr k (.name x loc) [x]
  | binary {k j : ℕ} {op : String} {l r : Tree} {loc : Option Span} {ts us : List String}
    (hop : op ∈ signs j) (hkj : k ≤ j) (hl : WrittenExpr j l ts) (hr : WrittenExpr (j + 1) r us) :
    WrittenExpr k (.binary op l r loc) (ts ++ op :: us)
  | paren {k : ℕ} {e : Tree} {ts : List String} (h : WrittenExpr 0 e ts) :
    WrittenExpr k e ("(" :: (ts ++ [")"]))

lemma WrittenExpr.ne_nil (h : WrittenExpr k e ts) : ts ≠ [] := by
  cases h <;> simp

lemma WrittenExpr.loosen (h : WrittenExpr (k + 1) e ts) : WrittenExpr k e ts := by
  cases h with
  | literal hv => exact .literal hv
  | name => exact .name
  | binary hop hkj hl hr => exact .binary hop (by omega) hl hr
  | paren he => exact .paren he

/-- Between the cursors stand the tokens of the expression, which is a sensible one. -/
structure ExprBetween (k : ℕ) (e : Tree) (c c' : Cursor) : Prop where
  sorted : e.IsExpression fun _ => True
  written : ∃ ts, WrittenExpr k e ts ∧ Laid ts c.rest c'.rest

lemma ExprBetween.loosen (h : ExprBetween (k + 1) e c c') : ExprBetween k e c c' := by
  obtain ⟨hsorted, ts, hts, hlaid⟩ := h
  exact ⟨hsorted, ts, hts.loosen, hlaid⟩

def Sound (k : ℕ) (x : Rule Tree) : Prop := ∀ c e c', x c = .accept e c' → ExprBetween k e c c'

/-! ### Signs and words -/

lemma rest_of_sign {s : String} (h : sign s c = .accept u c') : c.rest = s.toList ++ c'.rest := by
  obtain ⟨cs, hcs⟩ := ignore_eq_accept.1 h
  obtain ⟨n, hn, rfl, hrest⟩ := lexeme_eq_accept hcs
  unfold sign? at hn
  split at hn
  · rename_i hpre
    obtain rfl := Option.some.inj hn
    rw [List.isPrefixOf_iff_prefix, List.prefix_iff_eq_take, String.length_toList] at hpre
    rwa [← hpre] at hrest
  · cases hn

lemma laid_sign {s : String} (hs : s ≠ "") (h : sign s c = .accept u c') :
    Laid [s] c.rest c'.rest :=
  laid_token hs (rest_of_sign h)

lemma laid_word {w : String} (hw : w ≠ "") (h : word w c = .accept u c') :
    Laid [w] c.rest c'.rest := by
  obtain ⟨cs, hcs⟩ := ignore_eq_accept.1 h
  obtain ⟨n, hn, rfl, hrest⟩ := lexeme_eq_accept hcs
  rw [(take_of_word? hn).1] at hrest
  exact laid_token hw hrest

/-- The text of a word that a measure finds stands where the word was read. -/
lemma laid_textOf {measure : List Char → Option ℕ} {x : String}
    (h : textOf measure c = .accept x c') :
    ∃ n, measure c.rest = some n ∧ x = String.ofList (c.rest.take n) ∧
      (x ≠ "" → Laid [x] c.rest c'.rest) := by
  obtain ⟨cs, c₁, hcs, hpure⟩ := bind_eq_accept.1 h
  obtain ⟨n, hn, htake, hrest⟩ := lexeme_eq_accept hcs
  obtain ⟨rfl, rfl⟩ := pure_eq_accept.1 hpure
  exact ⟨n, hn, by rw [htake], fun hx => laid_token hx (by rwa [String.toList_ofList])⟩

lemma ne_empty_of_isName {x : String} (h : Node.IsName x) : x ≠ "" := by
  rintro rfl
  exact absurd h (by decide)

lemma laid_name {x : String} (h : name c = .accept x c') :
    Node.IsName x ∧ Laid [x] c.rest c'.rest := by
  obtain ⟨n, hn, rfl, hlaid⟩ := laid_textOf h
  have hname := isName_of_name? hn
  exact ⟨hname, hlaid (ne_empty_of_isName hname)⟩

/-! ### Operands -/

lemma leaf_eq_accept {measure : List Char → Option ℕ} {meaning : List Char → Option Span → Tree}
    (h : leaf measure meaning c = .accept e c') :
    ∃ n span, measure c.rest = some n ∧ e = meaning (c.rest.take n) (some span) ∧
      c.rest = c.rest.take n ++ c'.rest := by
  obtain ⟨cs, c₁, hcs, hpure⟩ := located_bind_eq_accept.1 h
  obtain ⟨n, hn, rfl, hrest⟩ := lexeme_eq_accept hcs
  obtain ⟨rfl, rfl⟩ := pure_eq_accept.1 hpure
  exact ⟨n, _, hn, rfl, hrest⟩

/-- A word that is a form of a literal is written as this literal. -/
lemma exprBetween_literal {v : Literal} {loc : Option Span} {n : ℕ} (hv : v.Form (c.rest.take n))
    (hrest : c.rest = c.rest.take n ++ c'.rest) : ExprBetween k (.literal v loc) c c' := by
  have hne : String.ofList (c.rest.take n) ≠ "" := fun hnil =>
    hv.ne_nil (String.ofList_inj.1 hnil)
  refine ⟨trivial, _, .literal hv, laid_token hne ?_⟩
  rwa [String.toList_ofList]

lemma exprBetween_name {loc : Option Span} {n : ℕ} (hn : name? c.rest = some n)
    (hrest : c.rest = c.rest.take n ++ c'.rest) :
    ExprBetween k (.name (String.ofList (c.rest.take n)) loc) c c' := by
  have hname := isName_of_name? hn
  refine ⟨hname, _, .name, laid_token (ne_empty_of_isName hname) ?_⟩
  rwa [String.toList_ofList]

variable {x : Rule Tree}

lemma exprBetween_paren (hx : Sound 0 x) (h : paren x c = .accept e c') :
    ExprBetween k e c c' := by
  simp only [paren, bind_eq_accept, pure_eq_accept] at h
  obtain ⟨_, c₁, hopen, _, c₂, hgap, e, c₃, he, _, c₄, hgap', _, c₅, hclose, rfl, rfl⟩ := h
  obtain ⟨hsorted, ts, hts, hlaid⟩ := hx _ _ _ he
  have hbefore := (laid_sign (by decide) hopen).append (hlaid.behind_gap hts.ne_nil hgap)
  have hafter := (laid_sign (by decide) hclose).behind_gap (by simp) hgap'
  exact ⟨hsorted, _, .paren hts, hbefore.append hafter⟩

lemma sound_primary (hx : Sound 0 x) : Sound k (primary x) := by
  intro c e c' h
  simp only [primary, orElse_eq_accept] at h
  rcases h with h | ⟨-, h | ⟨-, h | ⟨-, h | ⟨-, h | ⟨-, h⟩⟩⟩⟩⟩
  · exact exprBetween_paren hx h
  · obtain ⟨n, span, hn, rfl, hrest⟩ := leaf_eq_accept h
    exact exprBetween_literal (form_of_float? hn) hrest
  · obtain ⟨n, span, hn, rfl, hrest⟩ := leaf_eq_accept h
    exact exprBetween_literal (form_of_integer? hn) hrest
  · obtain ⟨n, span, hn, rfl, hrest⟩ := leaf_eq_accept h
    exact exprBetween_literal (form_of_string? hn) hrest
  · obtain ⟨n, span, hn, rfl, hrest⟩ := leaf_eq_accept h
    exact exprBetween_literal (form_of_boolean? hn) hrest
  · obtain ⟨n, span, hn, rfl, hrest⟩ := leaf_eq_accept h
    exact exprBetween_name hn hrest

/-! ### Operators -/

lemma operator_eq_accept {ss : List String} {op : String} (h : operator ss c = .accept op c') :
    op ∈ ss ∧ c.rest = op.toList ++ c'.rest := by
  induction ss with
  | nil => cases h
  | cons s ss ih =>
    rcases orElse_eq_accept.1 h with h | ⟨-, h⟩
    · obtain ⟨_, c₁, hsign, hpure⟩ := bind_eq_accept.1 h
      obtain ⟨rfl, rfl⟩ := pure_eq_accept.1 hpure
      exact ⟨by simp, rest_of_sign hsign⟩
    · obtain ⟨hmem, hrest⟩ := ih h
      exact ⟨by simp [hmem], hrest⟩

lemma mem_operators {op : String} (h : op ∈ signs k) :
    op ∈ comparisonSigns ++ additiveSigns ++ multiplicativeSigns := by
  have hk := lt_of_mem_signs h
  interval_cases k <;> simp_all [signs]

lemma tail_eq_accept {op : String} {r : Tree} (hx : Sound (k + 1) x)
    (h : tail (signs k) x c = .accept (op, r) c') :
    op ∈ signs k ∧ r.IsExpression (fun _ => True) ∧
      ∃ us, WrittenExpr (k + 1) r us ∧ Laid (op :: us) c.rest c'.rest := by
  simp only [tail, bind_eq_accept, pure_eq_accept, Prod.mk.injEq] at h
  obtain ⟨_, c₁, hgap, op, c₂, hop, _, c₃, hgap', r, c₄, hr, ⟨rfl, rfl⟩, rfl⟩ := h
  obtain ⟨hmem, hrest⟩ := operator_eq_accept hop
  obtain ⟨hsorted, us, hus, hlaid⟩ := hx _ _ _ hr
  have hne : op ≠ "" := by
    rintro rfl
    simpa using length_of_mem_signs hmem
  have hsign := (laid_token hne hrest).behind_gap (by simp) hgap
  exact ⟨hmem, hsorted, us, hus, hsign.append (hlaid.behind_gap hus.ne_nil hgap')⟩

/-- Operators with operands after an expression of their own level make an expression of it. -/
lemma exprBetween_foldLeft (hx : Sound (k + 1) x) {tails : List (String × Tree)} {c₁ : Cursor}
    (hrun : Run (tail (signs k) x) c₁ tails c') (he : ExprBetween k e c c₁) :
    ExprBetween k (foldLeft e tails) c c' := by
  -- The expression grows to the left, so the first operand is the whole that is joined so far.
  induction hrun generalizing e with
  | nil => exact he
  | @cons c₁ c₂ c₃ t tails ht _ ih =>
    obtain ⟨hsorted, ts, hts, hlaid⟩ := he
    obtain ⟨hop, hr, us, hus, hlaid'⟩ := tail_eq_accept hx ht
    exact ih ⟨⟨mem_operators hop, hsorted, hr⟩, _, .binary hop le_rfl hts hus,
      hlaid.append hlaid'⟩

lemma sound_level (hx : Sound (k + 1) x) : Sound k (level (signs k) x) := by
  intro c e c' h
  simp only [level, bind_eq_accept, pure_eq_accept] at h
  obtain ⟨first, c₁, hfirst, tails, c₂, htails, rfl, rfl⟩ := h
  exact exprBetween_foldLeft hx (run_of_many htails) (hx _ _ _ hfirst).loosen

/-- **Expressions**: where an expression is read, its tokens stand between layout. -/
theorem sound_expression (depth : ℕ) : Sound 0 (expression depth) := by
  induction depth with
  | zero => intro c e c' h; cases h
  | succ depth ih => exact sound_level (sound_level (sound_level (sound_primary ih)))

end Primer.Grammar
