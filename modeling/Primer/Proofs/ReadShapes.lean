import Mathlib.Tactic
import Primer.Proofs.RuleAccepts
import Primer.Proofs.TextShapes
import Primer.Proofs.WordMeasures

/-!
Texts of a shape are read as the shape says.

A rule looks ahead, and so what it does depends on more than the text it takes. For each shape there
is a condition on what follows: behind an expression no operator that would go on with it, behind a
statement that ends in a branch no `else`. Where the condition holds, the rule takes the text and
gives the tree of the shape, places included.
-/

namespace Primer

def Sited (text : List Char) (p : Position) (r : List Char) : Prop :=
  ∃ before, text = before ++ r ∧ p = Position.initial.advance before

variable {text cs us r rest : List Char} {p : Position}

lemma Sited.advance (us : List Char) (h : Sited text p (us ++ r)) :
    Sited text (p.advance us) r := by
  obtain ⟨before, rfl, rfl⟩ := h
  exact ⟨before ++ us, by simp, by rw [Position.advance_append]⟩

lemma Sited.pos_within (h : Sited text p r) {i : ℕ} (hi : text.drop i = r) :
    (Cursor.within text i).pos = p := by
  obtain ⟨before, rfl, rfl⟩ := h
  have hbefore : (before ++ r).take i = before := by
    have hcut := List.take_append_drop i (before ++ r)
    rw [hi] at hcut
    exact List.append_cancel_right hcut
  rw [Cursor.within, hbefore]

namespace Rule

variable {α : Type} {x : Rule α} {Q : α → Prop}

lemma Takes.located_at (hx : Takes text x cs rest Q) (hs : Sited text p (cs ++ rest)) :
    Takes text (Rule.located x) cs rest (fun a => Q a.1 ∧ a.2 = .over p cs) := by
  intro i hi
  obtain ⟨a, ha, hQ⟩ := hx i hi
  refine ⟨(a, ⟨(Cursor.within text i).pos, (Cursor.within text (i + cs.length)).pos⟩),
    by rw [Rule.located, ha], hQ, ?_⟩
  rw [hs.pos_within hi, hs.advance.pos_within (drop_add_length hi), Span.over]

/-- Matches one behind the other are what the repetition finds, if the rule rejects behind them. -/
lemma many_of_run {c c' : Cursor} {as : List α} (h : Run x c as c')
    (hlen : as.length ≤ c.rest.length) (hend : x c' = .reject) : many x c = .accept as c' := by
  have hwithin : ∀ bound : List Char, as.length ≤ bound.length →
      manyWithin x bound c = .accept as c' := by
    clear hlen
    induction h with
    | nil => exact fun bound _ => manyWithin_reject hend bound
    | cons ha _ ih =>
      intro bound hbound
      cases bound with
      | nil => simp at hbound
      | cons y bound =>
        rw [manyWithin_accept ha, ih hend bound (by simpa using hbound)]
        rfl
  exact hwithin c.rest hlen

lemma Run.snoc {c c₁ c' : Cursor} {as : List α} {a : α} (h : Run x c as c₁)
    (ha : x c₁ = .accept a c') : Run x c (as ++ [a]) c' := by
  induction h with
  | nil => exact .cons ha .nil
  | cons hb _ ih => exact .cons hb (ih ha)

end Rule

namespace Grammar

open Rule Lexeme Text

variable {g k t : List Char}

/-! ### Layout -/

lemma commentEnd?_append (hcs : ¬ ['*', '/'] <:+: cs ++ ['*']) (r : List Char) :
    commentEnd? (cs ++ '*' :: '/' :: r) = some (cs.length + 2) := by
  induction cs with
  | nil => rfl
  | cons c cs ih =>
    have htail : ¬ ['*', '/'] <:+: cs ++ ['*'] :=
      fun h => hcs (h.trans (List.suffix_cons _ _).isInfix)
    -- a closing sign at the front would lie inside the comment
    have hfront : ∀ r', c = '*' → cs ++ '*' :: '/' :: r = '/' :: r' → False := by
      rintro r' rfl hr'
      cases cs with
      | nil => simp at hr'
      | cons d cs =>
        obtain ⟨rfl, -⟩ := List.cons.inj hr'
        exact hcs ⟨[], cs ++ ['*'], by simp⟩
    rw [List.cons_append, commentEnd?.eq_2 _ _ hfront, ih htail, Option.map_some, List.length_cons]
    congr 1
    omega

lemma blanks?_append (hcs : ∀ b ∈ cs, isBlank b) (hne : cs ≠ [])
    (hr : r.head?.any isBlank = false) : blanks? (cs ++ r) = some cs.length := by
  have hstop : r.takeWhile isBlank = [] := by
    cases r <;> simp_all
  have hpos := List.length_pos_iff.2 hne
  unfold blanks?
  rw [List.takeWhile_append_of_pos hcs, hstop, List.append_nil]
  split
  · omega
  · rfl

lemma comment?_line (hcs : '\n' ∉ cs) (r : List Char) :
    comment? ('/' :: '/' :: (cs ++ '\n' :: r)) = some ('/' :: '/' :: cs).length := by
  have hall : ∀ c ∈ cs, decide (c ≠ '\n') = true := by
    rintro c hc
    have hne : c ≠ '\n' := by
      rintro rfl
      exact hcs hc
    simpa using hne
  rw [comment?, List.takeWhile_append_of_pos hall]
  simp
  omega

/-- The first blanks or the first comment of some layout are what one step of a gap takes. -/
lemma takes_filler (text : List Char) (hg : Layout g) (hne : g ≠ [])
    (hr : r.head?.any isBlank = false) :
    ∃ f g', g = f ++ g' ∧ f ≠ [] ∧ Layout g' ∧
      Takes text (blanks <|> comment) f (g' ++ r) (fun _ => True) := by
  have hblanks : ∀ {c : Char} {s : List Char}, isBlank c = false → blanks? (c :: s) = none := by
    intro c s hc
    simp [blanks?, hc]
  cases hg with
  | nil => exact absurd rfl hne
  | @blank c s hc h =>
    refine ⟨c :: s.takeWhile isBlank, s.dropWhile isBlank, ?_, by simp, ?_, ?_⟩
    · rw [List.cons_append, List.takeWhile_append_dropWhile]
    · induction h with
      | nil => exact .nil
      | blank hb hs ih => simpa [List.dropWhile_cons, hb] using ih (by simp)
      | line hcs hs => exact .line hcs hs
      | block hcs hs => exact .block hcs hs
    · refine .orElse_left (.ignore (.lexeme (blanks?_append ?_ (by simp) ?_)))
      · intro b hb
        rcases List.mem_cons.1 hb with rfl | hb
        · exact hc
        · exact List.mem_takeWhile_imp hb
      · cases hd : s.dropWhile isBlank with
        | nil => exact hr
        | cons d s' =>
          have hstop := List.head?_dropWhile_not isBlank s
          rw [hd] at hstop
          simpa using hstop
  | @line cs s hcs h =>
    refine ⟨'/' :: '/' :: cs, '\n' :: s, by simp, by simp, .blank (by decide) h, ?_⟩
    refine .orElse_right (.ignore (.lexeme (hblanks (by decide)))) (.ignore (.lexeme ?_))
    exact comment?_line hcs (s ++ r)
  | @block cs s hcs h =>
    refine ⟨'/' :: '*' :: (cs ++ ['*', '/']), s, by simp, by simp, h, ?_⟩
    refine .orElse_right (.ignore (.lexeme (hblanks (by decide)))) (.ignore (.lexeme ?_))
    have htext : ('/' :: '*' :: (cs ++ ['*', '/'])) ++ (s ++ r) =
        '/' :: '*' :: (cs ++ '*' :: '/' :: (s ++ r)) := by simp
    rw [htext, comment?, commentEnd?_append hcs]
    simp
    omega

/-- Layout falls apart into pieces that the steps of a gap take, if no blank follows it. -/
lemma exists_fillers (text : List Char) (hg : Layout g) (hr : r.head?.any isBlank = false) :
    ∃ pieces : List (List Char), g = pieces.flatMap id ∧ (∀ b ∈ pieces, b ≠ []) ∧
      ∀ l b s, pieces = l ++ b :: s →
        Takes text (blanks <|> comment) b (s.flatMap id ++ r) (fun _ => True) := by
  induction hn : g.length using Nat.strong_induction_on generalizing g with
  | _ n ih =>
    by_cases hne : g = []
    · exact ⟨[], hne, by simp, by simp⟩
    · obtain ⟨f, g', rfl, hf, hg', htakes⟩ := takes_filler text hg hne hr
      have hpos := List.length_pos_iff.2 hf
      rw [List.length_append] at hn
      obtain ⟨pieces, rfl, hall, hrow⟩ := ih g'.length (by omega) hg' rfl
      refine ⟨f :: pieces, rfl, by simpa using ⟨hf, hall⟩, ?_⟩
      intro l b s hl
      cases l with
      | nil =>
        obtain ⟨rfl, rfl⟩ := List.cons.inj hl
        exact htakes
      | cons d l => exact hrow l b s (List.cons.inj hl).2

/-- A gap takes exactly the layout that stands there. -/
lemma takes_layout (hg : Layout g) (hr : Solid r) : Takes text gap g r (fun _ => True) := by
  obtain ⟨pieces, rfl, hall, hrow⟩ := exists_fillers text hg hr.1
  exact (Takes.many (R := fun _ _ => True) hall hrow (rejects_layout hr)).ignore

/-- Layout begins with a blank or with the first sign of a comment. -/
lemma exists_head_layout (hg : Layout g) (hne : g ≠ []) :
    ∃ c s, g = c :: s ∧ (isBlank c ∨ c = '/') := by
  cases hg with
  | nil => exact absurd rfl hne
  | @blank c s hc h => exact ⟨c, s, rfl, Or.inl hc⟩
  | line hcs h => exact ⟨'/', _, rfl, Or.inr rfl⟩
  | block hcs h => exact ⟨'/', _, rfl, Or.inr rfl⟩

lemma ends_of_isBlank {c : Char} (h : isBlank c) : Ends (c :: r) := by
  have hiff : isWordChar c ↔ isLetter c ∨ 48 ≤ c.toNat ∧ c.toNat ≤ 57 := by
    simp only [isWordChar, Bool.or_eq_true, Bool.and_eq_true, decide_eq_true_eq]
    rfl
  have hword : isWordChar c = false := by
    rw [← Bool.not_eq_true, hiff, isLetter_iff]
    simp [isBlank] at h
    omega
  have hdigit : isDigit c = false := by
    rw [← Bool.not_eq_true]
    intro hd
    simp [Reading.not_isBlank_of_isDigit hd] at h
  have hpoint : c ≠ '.' := by
    rintro rfl
    exact absurd h (by decide)
  exact ends_cons (by simp [hword, hdigit, hpoint])

/-- Nothing goes on over layout. -/
lemma ends_layout (hg : Layout g) (h : Ends t) : Ends (g ++ t) := by
  by_cases hne : g = []
  · rwa [hne]
  · obtain ⟨c, s, rfl, hc | rfl⟩ := exists_head_layout hg hne
    · exact ends_of_isBlank hc
    · exact ends_cons (by decide)

lemma wordEnd_of_layout (hg : Layout g) (hne : g ≠ []) (t : List Char) : WordEnd (g ++ t) := by
  obtain ⟨c, s, rfl, hc | rfl⟩ := exists_head_layout hg hne
  · exact (ends_of_isBlank hc).wordEnd
  · exact wordEnd_cons (by decide)

lemma head_ne_equals (hg : Layout g) (h : Firm us) (r : List Char) :
    (g ++ (us ++ r)).head? ≠ some '=' := by
  by_cases hne : g = []
  · obtain ⟨c, s, rfl, -, hc⟩ := h
    rw [hne]
    simpa using fun heq : c = '=' => hc (by simp [heq])
  · obtain ⟨c, s, rfl, hc | rfl⟩ := exists_head_layout hg hne
    · simpa using show c ≠ '=' by rintro rfl; exact absurd hc (by decide)
    · simp

/-! ### Operators -/

/-- The text goes on with neither a word nor a number, and behind some layout with no operator of
level `k` or a tighter one. -/
def Halts (k : ℕ) (rest : List Char) : Prop :=
  Ends rest ∧ ∃ g t, rest = g ++ t ∧ Layout g ∧ Solid t ∧
    ∀ j ≥ k, ∀ s ∈ signs j, ¬ s.toList <+: t

lemma Halts.mono {j k : ℕ} (h : Halts k rest) (hkj : k ≤ j) : Halts j rest := by
  obtain ⟨hends, g, t, hrest, hg, ht, hnone⟩ := h
  exact ⟨hends, g, t, hrest, hg, ht, fun i hi => hnone i (hkj.trans hi)⟩

/-- Texts with different first characters are not the beginning of one another. -/
lemma not_isPrefix_of_head {s : List Char} {c : Char} (hs : s.head? ≠ some c) (hne : s ≠ []) :
    ¬ s <+: c :: r := by
  obtain ⟨d, s, rfl⟩ := List.exists_cons_of_ne_nil hne
  rw [List.cons_prefix_cons]
  rintro ⟨rfl, -⟩
  exact hs rfl

/-- A closing parenthesis and a semicolon end an expression. -/
lemma halts_closing {c : Char} (hc : c = ')' ∨ c = ';') (hg : Layout g) (j : ℕ) (r : List Char) :
    Halts j (g ++ c :: r) := by
  have hclosing : Ends (c :: r) ∧ Solid (c :: r) := by
    rcases hc with rfl | rfl <;> exact ⟨ends_cons (by decide), solid_cons (by decide) (by decide)⟩
  refine ⟨ends_layout hg hclosing.1, g, c :: r, rfl, hg, hclosing.2, fun i _ s hs => ?_⟩
  have hhead : ∀ i < 3, ∀ s ∈ signs i, s.toList.head? ≠ some ')' ∧ s.toList.head? ≠ some ';' := by
    decide
  have := hhead i (lt_of_mem_signs hs) s hs
  refine not_isPrefix_of_head ?_ (toList_ne_nil_of_mem_signs hs)
  rcases hc with rfl | rfl
  · exact this.1
  · exact this.2

/-- An operator ends what binds tighter. -/
lemma halts_operator {j : ℕ} {op : String} (hg : Layout g) (hop : op ∈ signs j)
    (hsolid : Solid (op.toList ++ r)) : Halts (j + 1) (g ++ (op.toList ++ r)) := by
  have hall : ∀ i < 3, ∀ op ∈ signs i, op.toList.head?.any
      (fun c => !(isWordChar c || isDigit c || c == '.')) ∧
      ∀ i' < 3, i < i' → ∀ s ∈ signs i', s.toList.head? ≠ op.toList.head? := by decide
  obtain ⟨hends, htighter⟩ := hall j (lt_of_mem_signs hop) op hop
  obtain ⟨c, cs, hcs⟩ := List.exists_cons_of_ne_nil (toList_ne_nil_of_mem_signs hop)
  rw [hcs, List.cons_append] at hsolid ⊢
  rw [hcs] at hends htighter
  refine ⟨ends_layout hg (ends_cons (by simpa using hends)), g, _, rfl, hg, hsolid, ?_⟩
  intro i hi s hs
  exact not_isPrefix_of_head (htighter i (lt_of_mem_signs hs) (by omega) s hs)
    (toList_ne_nil_of_mem_signs hs)

/-- The signs that are tried before an operator do not stand there, unless an equals sign follows
it. -/
lemma not_isPrefix_before {j : ℕ} {op s : String} (hop : op ∈ signs j)
    (hs : s ∈ (signs j).takeWhile (· ≠ op)) (hr : r.head? ≠ some '=') :
    ¬ s.toList <+: op.toList ++ r := by
  have hall : ∀ i < 3, ∀ op ∈ signs i, ∀ s ∈ (signs i).takeWhile (· ≠ op),
      ¬ s.toList <+: op.toList ∧ (op.toList <+: s.toList → s.toList = op.toList ++ ['=']) := by
    decide
  obtain ⟨hshort, hlong⟩ := hall j (lt_of_mem_signs hop) op hop s hs
  intro hpre
  rcases List.prefix_or_prefix_of_prefix hpre (List.prefix_append op.toList r) with h | h
  · exact hshort h
  · rw [hlong h, List.prefix_append_right_inj] at hpre
    obtain ⟨r', rfl⟩ := hpre
    exact hr rfl

/-- No comment begins at an operator. -/
lemma solid_before_operand {j : ℕ} {op : String} (hop : op ∈ signs j) (hk : Layout k)
    (hslash : op = "/" → k.head? ≠ some '/') (hus : Firm us) (r : List Char) :
    Solid (op.toList ++ (k ++ (us ++ r))) := by
  have hall : ∀ i < 3, ∀ op ∈ signs i, op ≠ "/" →
      op.toList.head?.any (fun c => !isBlank c && c != '/') := by decide
  by_cases hdiv : op = "/"
  · subst hdiv
    refine ⟨by rfl, ?_⟩
    -- behind the division sign comes a blank or the operand
    have hnext : ∃ c s, k ++ (us ++ r) = c :: s ∧ c ≠ '/' ∧ c ≠ '*' := by
      by_cases hne : k = []
      · obtain ⟨c, s, rfl, -, hc⟩ := hus
        rw [hne]
        exact ⟨c, s ++ r, rfl, fun h => hc (by simp [h]), fun h => hc (by simp [h])⟩
      · obtain ⟨c, s, rfl, hc⟩ := exists_head_layout hk hne
        have hc' : c ≠ '/' := by simpa using hslash rfl
        refine ⟨c, s ++ (us ++ r), rfl, hc', ?_⟩
        rintro rfl
        exact absurd (hc.resolve_right hc') (by decide)
    obtain ⟨c, s, hcs, hc, hc'⟩ := hnext
    rw [hcs]
    change comment? ('/' :: c :: s) = none
    unfold comment?
    split <;> simp_all
  · obtain ⟨c, cs, hcs⟩ := List.exists_cons_of_ne_nil (toList_ne_nil_of_mem_signs hop)
    have hc := hall j (lt_of_mem_signs hop) op hop hdiv
    rw [hcs] at hc ⊢
    simp only [List.head?_cons, Option.any_some, Bool.and_eq_true, Bool.not_eq_true',
      bne_iff_ne] at hc
    exact solid_cons hc.1 hc.2

/-! ### Expressions -/

/-- Wherever a text of the shape stands and no operator of level `j` or a tighter one follows, the
rule takes it for the tree of the shape. -/
def ReadsShape (text : List Char) (j : ℕ) (x : Rule Tree) (X : Shape) : Prop :=
  ∀ ⦃p us e rest⦄, X p us e → Sited text p (us ++ rest) → Halts j rest →
    Takes text x us rest (· = e)

variable {x : Rule Tree} {X : Shape} {e : Tree}

lemma takes_leaf_at {measure : List Char → Option ℕ} {meaning : List Char → Option Span → Tree}
    (hs : Sited text p (cs ++ rest)) (h : measure (cs ++ rest) = some cs.length) :
    Takes text (leaf measure meaning) cs rest (· = meaning cs (some (.over p cs))) := by
  refine ((Takes.lexeme h).located_at hs).map ?_
  rintro ⟨ds, span⟩ ⟨(rfl : ds = cs), (rfl : span = _)⟩
  exact .pure rfl

/-- A literal is no expression in parentheses. -/
lemma rejects_paren_literal {v : Literal} (h : v.Form cs) (rest : List Char) :
    Rejects text (paren x) (cs ++ rest) := by
  obtain ⟨c, s, rfl, hc⟩ := exists_head_literal h
  refine rejects_paren ?_
  rintro rfl
  revert hc
  decide

lemma takes_literal {v : Literal} (h : v.Form cs) (hs : Sited text p (cs ++ rest))
    (hrest : Ends rest) :
    Takes text (primary x) cs rest (· = .literal v (some (.over p cs))) := by
  have hparen : Rejects text (paren x) (cs ++ rest) := rejects_paren_literal h rest
  cases h with
  | @int minus ds hds =>
    have hfloat := float?_integer minus hds hrest
    have hint := integer?_form minus hds hrest
    rw [← List.append_assoc] at hfloat hint
    rw [← integerValue_digits minus hds]
    exact .orElse_right hparen (.orElse_right (rejects_leaf hfloat) (.orElse_left
      (takes_leaf_at hs hint)))
  | @float minus cs ds k hcs =>
    have hfloat := float?_form minus hcs hrest
    rw [← List.append_assoc] at hfloat
    have htakes : Takes text floatLiteral (minusSign minus ++ cs) rest _ := takes_leaf_at hs hfloat
    rw [Reading.float?_fraction minus hcs] at htakes
    exact .orElse_right hparen (.orElse_left htakes)
  | @text cs vs hcs =>
    have htakes : Takes text stringLiteral ('"' :: (cs ++ ['"'])) rest _ :=
      takes_leaf_at hs (string?_form hcs rest)
    rw [List.drop_one, List.tail_cons, List.dropLast_concat, unescape_form hcs] at htakes
    refine .orElse_right hparen (.orElse_right (rejects_leaf ?_) (.orElse_right (rejects_leaf ?_)
      (.orElse_left htakes)))
    · exact float?_eq_none (by decide) (by decide) (by decide) _
    · exact integer?_eq_none (by decide) (by decide) _
  | bool b =>
    have htakes : Takes text booleanLiteral (toString b).toList rest _ :=
      takes_leaf_at hs (boolean?_append b hrest.wordEnd)
    cases b with
    | true => exact takes_primary_of_isLetter (by decide) (.orElse_left htakes)
    | false => exact takes_primary_of_isLetter (by decide) (.orElse_left htakes)

lemma takes_name_at {y : String} (hy : Node.IsName y) (hs : Sited text p (y.toList ++ rest))
    (hrest : WordEnd rest) :
    Takes text (primary x) y.toList rest (· = .name y (some (.over p y.toList))) := by
  have hsub : ∀ w ∈ ["true", "false"], w ∈ keywords := by decide
  have hbool : boolean? (y.toList ++ rest) = none :=
    boolean?_eq_none hy.2.2 (fun h => hy.1 (hsub y h)) hrest
  have htakes : Takes text variableName y.toList rest _ := takes_leaf_at hs (name?_append hy hrest)
  rw [String.ofList_toList] at htakes
  have hboth : Takes text (booleanLiteral <|> variableName) y.toList rest _ :=
    .orElse_right (rejects_leaf hbool) htakes
  obtain ⟨c, s, hcs, hc, -⟩ := exists_cons_of_isName hy
  rw [hcs] at hboth ⊢
  exact takes_primary_of_isLetter hc hboth

lemma readsShape_primary (hx : ReadsShape text 0 x X) (hX : ∀ {p us e}, X p us e → Firm us) :
    ReadsShape text 3 (primary x) (OperandAt X) := by
  intro p us e rest h hs hrest
  cases h with
  | literal h => exact takes_literal h hs hrest.1
  | name h => exact takes_name_at h hs hrest.1.wordEnd
  | @paren g us k e hg he hk =>
    have hclose : Halts 0 ((k ++ ")".toList) ++ rest) := by
      rw [List.append_assoc]
      exact halts_closing (Or.inl rfl) hk 0 rest
    have hinner := hx he (Sited.advance ("(".toList ++ g) (by simpa using hs)) hclose
    refine .orElse_left (.bind (takes_sign "(") fun _ _ => ?_)
    refine .bind (takes_layout hg ?_) fun _ _ => ?_
    · rw [List.append_assoc]
      exact ((hX he).append _).solid
    refine .bind hinner ?_
    rintro _ rfl
    refine .bind (takes_layout hk (solid_cons (by decide) (by decide))) fun _ _ => ?_
    exact (takes_sign ")").map fun _ _ => .pure rfl

/-- An operator with its right operand. -/
lemma takes_tail_at {j : ℕ} {op : String} {vs : List Char} {q : Position}
    (hx : ReadsShape text (j + 1) x X) (hX : ∀ {p us e}, X p us e → Firm us) (hg : Layout g)
    (hop : op ∈ signs j) (hk : Layout k) (hslash : op = "/" → k.head? ≠ some '/')
    (he : X q vs e) (hs : Sited text q (vs ++ rest)) (hrest : Halts (j + 1) rest) :
    Takes text (tail (signs j) x) (g ++ (op.toList ++ (k ++ vs))) rest (· = (op, e)) := by
  have hsolid := solid_before_operand hop hk hslash (hX he) rest
  have hnext := head_ne_equals hk (hX he) rest
  refine .bind (takes_layout hg ?_) fun _ _ => ?_
  · simpa using hsolid
  refine .bind (takes_operator_of_mem hop fun s hs => not_isPrefix_before hop hs ?_) ?_
  · simpa using hnext
  rintro _ rfl
  refine .bind (takes_layout hk ((hX he).append rest).solid) fun _ _ => ?_
  refine (hx he hs hrest).map ?_
  rintro _ rfl
  exact .pure rfl

/-- The first operand of a level and the operators behind it, up to where no tighter operator
follows. The shape grows at its end as the run does. -/
lemma run_of_level {j : ℕ} (hx : ReadsShape text (j + 1) x X)
    (hX : ∀ {p us e}, X p us e → Firm us) (h : LevelAt (signs j) X p us e)
    (hs : Sited text p (us ++ rest)) (hrest : Halts (j + 1) rest) {i : ℕ}
    (hi : text.drop i = us ++ rest) :
    ∃ first c tails, x (.within text i) = .accept first c ∧
      Run (tail (signs j) x) c tails (.within text (i + us.length)) ∧
      foldLeft first tails = e ∧ tails.length + rest.length ≤ c.rest.length := by
  induction h generalizing rest with
  | @first us e he =>
    obtain ⟨_, haccept, rfl⟩ := hx he hs hrest i hi
    refine ⟨_, _, [], haccept, .nil, rfl, ?_⟩
    have hbehind : (Cursor.within text (i + us.length)).rest = rest := drop_add_length hi
    rw [hbehind]
    simp
  | @more us g k vs op l r hl hg hop hk hslash hr ih =>
    have htext : (us ++ (g ++ (op.toList ++ (k ++ vs)))) ++ rest =
        us ++ ((g ++ (op.toList ++ (k ++ vs))) ++ rest) := by simp
    rw [htext] at hs hi
    have hsolid := solid_before_operand hop hk hslash (hX hr) rest
    have hnext : Halts (j + 1) ((g ++ (op.toList ++ (k ++ vs))) ++ rest) := by
      simpa using halts_operator hg hop hsolid
    obtain ⟨first, c, tails, hfirst, hrun, hfold, hlen⟩ := ih hs hnext hi
    have hoperand : Sited text (p.advance (us ++ (g ++ (op.toList ++ k)))) (vs ++ rest) :=
      Sited.advance _ (by simpa using hs)
    obtain ⟨_, htail, rfl⟩ := takes_tail_at hx hX hg hop hk hslash hr hoperand hrest _
      (drop_add_length hi)
    rw [Nat.add_assoc, ← List.length_append] at htail
    refine ⟨first, c, tails ++ [(op, r)], hfirst, hrun.snoc htail, ?_, ?_⟩
    · rw [foldLeft_concat, hfold]
    · have hpos := List.length_pos_iff.2 (toList_ne_nil_of_mem_signs hop)
      simp only [List.length_append, List.length_singleton] at hlen ⊢
      omega

lemma readsShape_level {j : ℕ} (hx : ReadsShape text (j + 1) x X)
    (hX : ∀ {p us e}, X p us e → Firm us) :
    ReadsShape text j (level (signs j) x) (LevelAt (signs j) X) := by
  intro p us e rest h hs hrest i hi
  obtain ⟨first, c, tails, hfirst, hrun, rfl, hlen⟩ :=
    run_of_level hx hX h hs (hrest.mono (Nat.le_succ j)) hi
  have hend : tail (signs j) x (.within text (i + us.length)) = .reject := by
    obtain ⟨-, g, t, rfl, hg, ht, hnone⟩ := hrest
    have hrejects : Rejects text (tail (signs j) x) (g ++ t) :=
      .after (takes_layout hg ht) fun _ _ => .bind (rejects_operator (hnone j le_rfl))
    exact hrejects _ (drop_add_length hi)
  have hmany := many_of_run hrun (by omega) hend
  refine ⟨_, ?_, rfl⟩
  simp only [level, bind_eq_accept, pure_eq_accept]
  exact ⟨first, c, hfirst, tails, _, hmany, rfl, rfl⟩

/-- **Expressions**: a text of the shape of an expression is read as this expression, where no
operator follows it. -/
theorem readsShape_expression (d : ℕ) : ReadsShape text 0 (expression d) (ExprAt d) := by
  induction d with
  | zero => exact fun _ _ _ _ h => h.elim
  | succ d ih =>
    have hterm := readsShape_level (j := 2) (readsShape_primary ih firm_expr) firm_operand
    have hsum := readsShape_level (j := 1) hterm (firm_level firm_operand)
    exact readsShape_level (j := 0) hsum (firm_level (firm_level firm_operand))

end Grammar

end Primer
