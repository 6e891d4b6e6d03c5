import Mathlib.Tactic
import Primer.Proofs.WordForms

/-!
Each form of a literal is measured as a whole.

The measures look for the longest word, so a literal must not run into what follows it: neither a
digit nor a letter nor a point may stand right behind a number.
-/

namespace Primer.Lexeme

open Text

variable {cs ds ex r rest : List Char} {k : ℤ}

/-- The text ends here or goes on with a character that belongs to no word and no number. -/
def Ends (rest : List Char) : Prop :=
  rest.head?.all (fun c => !(isWordChar c || isDigit c || c == '.')) = true

lemma Ends.wordEnd (h : Ends rest) : WordEnd rest := by
  cases rest with
  | nil => rfl
  | cons c r => simp_all [Ends, WordEnd]

lemma Ends.not_digit (h : Ends rest) : rest.head?.any isDigit = false := by
  cases rest with
  | nil => rfl
  | cons c r => simp_all [Ends]

lemma ends_cons {c : Char} (hc : (isWordChar c || isDigit c || c == '.') = false) :
    Ends (c :: r) := by
  simpa [Ends] using hc

lemma digitCount_append (hds : ∀ d ∈ ds, isDigit d) (hr : r.head?.any isDigit = false) :
    digitCount (ds ++ r) = ds.length := by
  rw [digitCount, List.takeWhile_append_of_pos hds]
  cases r with
  | nil => simp
  | cons c r => simp_all

lemma digitCount_digits (hds : IsDigits ds) (hr : r.head?.any isDigit = false) :
    digitCount (ds ++ r) = ds.length ∧ ds.length ≠ 0 :=
  ⟨digitCount_append hds.2 hr, fun h => hds.1 (List.length_eq_zero_iff.1 h)⟩

/-- A minus sign is counted only where it stands. -/
lemma minusCount_append (minus : Bool) (hr : r.head? ≠ some '-') :
    minusCount (minusSign minus ++ r) = (minusSign minus).length := by
  cases minus with
  | true => rfl
  | false =>
    cases r with
    | nil => rfl
    | cons c r =>
      have hc : c ≠ '-' := by simpa using hr
      simp only [minusSign, Bool.false_eq_true, if_false, List.nil_append, List.length_nil]
      unfold minusCount
      split
      · rename_i heq
        exact absurd (List.cons.inj heq).1 hc
      · rfl

/-! ### Whole numbers -/

lemma exponent?_eq_none (h : Ends rest) : exponent? rest = none := by
  cases rest with
  | nil => rfl
  | cons c r =>
    have hc : ¬ (c = 'e' ∨ c = 'E') := by
      rintro (rfl | rfl) <;> exact absurd h (by simp [Ends]; decide)
    unfold exponent?
    exact if_neg hc

lemma fraction?_digits (hds : IsDigits ds) (hrest : Ends rest) : fraction? (ds ++ rest) = none := by
  obtain ⟨hcount, hne⟩ := digitCount_digits hds hrest.not_digit
  unfold fraction?
  simp only [hcount, List.drop_left]
  split
  · exact absurd hrest (by simp [Ends])
  · rw [if_neg hne, exponent?_eq_none hrest]
    rfl

lemma head_digits (hds : IsDigits ds) : (ds ++ r).head? ≠ some '-' := by
  obtain ⟨hne, hds⟩ := hds
  obtain ⟨d, ds, rfl⟩ := List.exists_cons_of_ne_nil hne
  simpa using ne_of_isDigit (hds d (by simp)) (by decide)

lemma integer?_form (minus : Bool) (hds : IsDigits ds) (hrest : Ends rest) :
    integer? (minusSign minus ++ (ds ++ rest)) = some (minusSign minus ++ ds).length := by
  obtain ⟨hcount, hne⟩ := digitCount_digits hds hrest.not_digit
  simp only [integer?, minusCount_append minus (head_digits hds), List.drop_left, hcount,
    List.length_append]

lemma float?_integer (minus : Bool) (hds : IsDigits ds) (hrest : Ends rest) :
    float? (minusSign minus ++ (ds ++ rest)) = none := by
  simp only [float?, minusCount_append minus (head_digits hds), List.drop_left,
    fraction?_digits hds hrest, Option.map_none]

/-! ### Decimal fractions -/

/-- An exponent is measured with its mark, its sign and its digits. -/
lemma exponent?_marked {mark : Char} (hmark : mark = 'e' ∨ mark = 'E') (sgn : List Char)
    (hsgn : sgn ∈ [[], ['+'], ['-']]) (hds : IsDigits ds) (hrest : Ends rest) :
    exponent? (mark :: (sgn ++ (ds ++ rest))) = some (mark :: (sgn ++ ds)).length := by
  obtain ⟨hcount, -⟩ := digitCount_digits hds hrest.not_digit
  obtain ⟨d, ds, rfl⟩ := List.exists_cons_of_ne_nil hds.1
  have hd := hds.2 d (by simp)
  have hplus : d ≠ '+' := ne_of_isDigit hd (by decide)
  have hminus : d ≠ '-' := ne_of_isDigit hd (by decide)
  unfold exponent?
  simp only [if_pos hmark]
  fin_cases hsgn <;> simp_all <;> omega

lemma exponent?_form (hex : ExponentForm ex k) (hne : ex ≠ []) (hrest : Ends rest) :
    exponent? (ex ++ rest) = some ex.length := by
  cases hex with
  | missing => exact absurd rfl hne
  | plain hmark hds => exact exponent?_marked hmark [] (by simp) hds hrest
  | plus hmark hds => exact exponent?_marked hmark ['+'] (by simp) hds hrest
  | minus hmark hds => exact exponent?_marked hmark ['-'] (by simp) hds hrest

/-- An exponent that may be missing. -/
lemma exponent?_getD (hex : ExponentForm ex k) (hrest : Ends rest) :
    (exponent? (ex ++ rest)).getD 0 = ex.length := by
  by_cases hne : ex = []
  · rw [hne, List.nil_append, exponent?_eq_none hrest]
    rfl
  · rw [exponent?_form hex hne hrest]
    rfl

lemma head_exponent_append (hex : ExponentForm ex k) (hrest : Ends rest) :
    (ex ++ rest).head?.any isDigit = false := by
  cases hx : ex with
  | nil => exact hrest.not_digit
  | cons c r =>
    have hhead := Reading.head_exponent hex
    rwa [hx] at hhead

lemma fraction?_form (h : FractionForm cs ds k) (hrest : Ends rest) :
    fraction? (cs ++ rest) = some cs.length := by
  cases h with
  | @point whole fraction ex k hds hex =>
    have hwhole : ∀ d ∈ whole, isDigit d := fun d hd => hds.2 d (List.mem_append_left _ hd)
    have hfraction : ∀ d ∈ fraction, isDigit d := fun d hd => hds.2 d (List.mem_append_right _ hd)
    have hcount : digitCount (whole ++ '.' :: (fraction ++ (ex ++ rest))) = whole.length :=
      digitCount_append hwhole (by rw [List.head?_cons]; decide)
    have hcount' : digitCount (fraction ++ (ex ++ rest)) = fraction.length :=
      digitCount_append hfraction (head_exponent_append hex hrest)
    have hsome : ¬ (whole.length = 0 ∧ fraction.length = 0) := by
      rintro ⟨hw, hf⟩
      exact hds.1 (by simp [List.length_eq_zero_iff.1 hw, List.length_eq_zero_iff.1 hf])
    have htext : (whole ++ '.' :: (fraction ++ ex)) ++ rest =
        whole ++ '.' :: (fraction ++ (ex ++ rest)) := by simp
    rw [htext]
    unfold fraction?
    simp only [hcount, List.drop_left, hcount', if_neg hsome, exponent?_getD hex hrest]
    simp
    omega
  | @scaled _ ex _ hds hex hne =>
    have hcount : digitCount (ds ++ (ex ++ rest)) = ds.length ∧ ds.length ≠ 0 :=
      digitCount_digits hds (head_exponent_append hex hrest)
    obtain ⟨mark, r, hr, hmark⟩ := (Reading.exists_mark hex).resolve_left hne
    rw [List.append_assoc]
    unfold fraction?
    simp only [hcount.1, List.drop_left]
    split
    · rename_i heq
      rw [hr, List.cons_append] at heq
      rcases hmark with rfl | rfl <;> simp at heq
    · rw [if_neg hcount.2, exponent?_form hex hne hrest]
      simp

lemma float?_form (minus : Bool) (h : FractionForm cs ds k) (hrest : Ends rest) :
    float? (minusSign minus ++ (cs ++ rest)) = some (minusSign minus ++ cs).length := by
  have hhead : (cs ++ rest).head? ≠ some '-' := by
    obtain ⟨c, r, rfl, hc | rfl⟩ := Reading.exists_head_fraction h
    · simpa using ne_of_isDigit hc (by decide)
    · simp
  simp only [float?, minusCount_append minus hhead, List.drop_left, fraction?_form h hrest,
    Option.map_some, List.length_append]

/-! ### Quoted texts -/

lemma quotedRest?_form {vs : List Char} (h : QuotedForm cs vs) (rest : List Char) :
    quotedRest? (cs ++ '"' :: rest) = some (cs.length + 1) := by
  induction h with
  | nil => rfl
  | @plain c cs vs hquote hslash hline _ ih =>
    rw [List.cons_append, quotedRest?.eq_4 _ _ hquote fun d r hc _ => absurd hc hslash,
      if_neg (by tauto), ih]
    simp
    omega
  | @escaped c cs vs hline _ ih =>
    rw [List.cons_append, List.cons_append, quotedRest?, if_neg hline, ih]
    simp
    omega

lemma string?_form {vs : List Char} (h : QuotedForm cs vs) (rest : List Char) :
    string? (('"' :: (cs ++ ['"'])) ++ rest) = some ('"' :: (cs ++ ['"'])).length := by
  have htext : ('"' :: (cs ++ ['"'])) ++ rest = '"' :: (cs ++ '"' :: rest) := by simp
  rw [htext, string?, quotedRest?_form h]
  simp
  omega

lemma unescape_form {vs : List Char} (h : QuotedForm cs vs) : unescape cs = vs := by
  induction h with
  | nil => rfl
  | @plain c cs vs hquote hslash hline _ ih =>
    rw [unescape.eq_3 c _ fun d r hc => absurd hc hslash, ih]
  | escaped hline _ ih => rw [unescape, ih]

end Primer.Lexeme
