import Mathlib.Tactic
import Primer.Proofs.Layout
import Primer.Proofs.Words

/-!
The forms that words can have.

A word that a measure finds at the start of a text has the form of its class: a name, a type, or one
of the many texts that stand for the same literal. Here the forms are given without the measures,
together with the values they stand for.
-/

namespace Primer

open Text

def IsDigits (ds : List Char) : Prop := ds ≠ [] ∧ ∀ d ∈ ds, isDigit d

def minusSign (minus : Bool) : List Char := if minus then ['-'] else []

/-- The text of an exponent and its value. An exponent that is left out is zero. -/
inductive ExponentForm : List Char → ℤ → Prop
  | missing : ExponentForm [] 0
  | plain {mark : Char} {ds : List Char} (hmark : mark = 'e' ∨ mark = 'E') (hds : IsDigits ds) :
    ExponentForm (mark :: ds) (digitsValue ds)
  | plus {mark : Char} {ds : List Char} (hmark : mark = 'e' ∨ mark = 'E') (hds : IsDigits ds) :
    ExponentForm (mark :: '+' :: ds) (digitsValue ds)
  | minus {mark : Char} {ds : List Char} (hmark : mark = 'e' ∨ mark = 'E') (hds : IsDigits ds) :
    ExponentForm (mark :: '-' :: ds) (-digitsValue ds)

/-- The text between quotes and its value. A backslash takes the next character with it. -/
inductive QuotedForm : List Char → List Char → Prop
  | nil : QuotedForm [] []
  | plain {c : Char} {cs vs : List Char} (hquote : c ≠ '"') (hslash : c ≠ '\\') (hline : c ≠ '\n')
    (h : QuotedForm cs vs) : QuotedForm (c :: cs) (c :: vs)
  | escaped {c : Char} {cs vs : List Char} (hline : c ≠ '\n') (h : QuotedForm cs vs) :
    QuotedForm ('\\' :: c :: cs) (Lexeme.escapeMeaning c :: vs)

/-- The text of a decimal fraction with a point, an exponent or both, its digits, and the power of
ten that they are multiplied with. -/
inductive FractionForm : List Char → List Char → ℤ → Prop
  | point {whole fraction ex : List Char} {k : ℤ} (hds : IsDigits (whole ++ fraction))
    (hex : ExponentForm ex k) :
    FractionForm (whole ++ '.' :: (fraction ++ ex)) (whole ++ fraction) (k - fraction.length)
  | scaled {whole ex : List Char} {k : ℤ} (hds : IsDigits whole) (hex : ExponentForm ex k)
    (hne : ex ≠ []) : FractionForm (whole ++ ex) whole k

/-- The texts that a literal may be written as. A decimal fraction stands for the floating-point
number nearest to it. -/
inductive Literal.Form : Literal → List Char → Prop
  | int (minus : Bool) {ds : List Char} (h : IsDigits ds) :
    Form (.int (signed minus (digitsValue ds))) (minusSign minus ++ ds)
  | float (minus : Bool) {cs ds : List Char} {k : ℤ} (h : FractionForm cs ds k) :
    Form (.float (.ofDecimal minus (digitsValue ds) k)) (minusSign minus ++ cs)
  | text {cs vs : List Char} (h : QuotedForm cs vs) :
    Form (.text (String.ofList vs)) ('"' :: (cs ++ ['"']))
  | bool (b : Bool) : Form (.bool b) (toString b).toList

namespace Lexeme

variable {cs r : List Char} {n : ℕ}

/-! ### Names and types -/

lemma take_of_word? {w : String} (h : word? w cs = some n) :
    cs.take n = w.toList ∧ WordEnd (cs.drop n) := by
  unfold word? at h
  split at h
  · rename_i hpre
    obtain rfl := Option.some.inj h
    simp only [Bool.and_eq_true, List.isPrefixOf_iff_prefix, Bool.not_eq_true'] at hpre
    refine ⟨?_, hpre.2⟩
    rw [← String.length_toList]
    exact (List.prefix_iff_eq_take.1 hpre.1).symm
  · cases h

lemma take_of_anyWord? {ws : List String} (h : anyWord? ws cs = some n) :
    String.ofList (cs.take n) ∈ ws := by
  obtain ⟨w, hw, hword⟩ := List.exists_of_findSome?_eq_some h
  rw [(take_of_word? hword).1, String.ofList_toList]
  exact hw

lemma wordEnd_dropWhile (cs : List Char) : WordEnd (cs.dropWhile isWordChar) := by
  have hhead := List.head?_dropWhile_not isWordChar cs
  unfold WordEnd
  cases hd : (cs.dropWhile isWordChar).head? with
  | none => rfl
  | some d =>
    rw [hd] at hhead
    exact hhead

lemma isName_of_name? (h : name? cs = some n) : Node.IsName (String.ofList (cs.take n)) := by
  unfold name? at h
  split at h
  · cases h
  rename_i hkey
  split at h
  · rename_i c r
    split at h
    · rename_i hc
      obtain rfl := Option.some.inj h
      have htake : (c :: r).take (1 + (r.takeWhile isWordChar).length) =
          c :: r.takeWhile isWordChar := by
        rw [Nat.add_comm, List.take_succ_cons, Grammar.take_length_takeWhile]
      have hall : (c :: r.takeWhile isWordChar).all isWordChar := by
        simp [isWordChar, hc]
      rw [htake]
      refine ⟨fun hmem => hkey ?_, by simpa using hc, by simpa using hall⟩
      -- a keyword that no longer word hides would have been found
      have hfound := anyWord?_append (x := String.ofList (c :: r.takeWhile isWordChar))
        (fun w hw => all_isWordChar_of_mem_keywords hw) (by simpa using hall) (wordEnd_dropWhile r)
      rw [if_pos hmem, String.toList_ofList, List.cons_append,
        List.takeWhile_append_dropWhile] at hfound
      rw [keyword?_eq, hfound]
      rfl
    · cases h
  · cases h

/-! ### Whole numbers -/

lemma isDigits_take {ds : List Char} (hd : digitCount ds ≠ 0) :
    IsDigits (ds.take (digitCount ds)) := by
  unfold digitCount at hd ⊢
  rw [Grammar.take_length_takeWhile]
  refine ⟨fun hnil => hd (by rw [hnil]; rfl), fun d hmem => List.mem_takeWhile_imp hmem⟩

lemma take_minusCount (cs : List Char) : ∃ minus, cs.take (minusCount cs) = minusSign minus := by
  unfold minusCount
  split
  · exact ⟨true, rfl⟩
  · exact ⟨false, rfl⟩

lemma ne_of_isDigit {c d : Char} (h : isDigit c) (hd : isDigit d = false) : c ≠ d := by
  rintro rfl
  simp [h] at hd

lemma integerValue_digits (minus : Bool) {ds : List Char} (hds : IsDigits ds) :
    integerValue (minusSign minus ++ ds) = signed minus (digitsValue ds) := by
  cases minus with
  | true => rfl
  | false =>
    obtain ⟨hne, hall⟩ := hds
    change integerValue ds = _
    unfold integerValue
    split
    · exact absurd rfl (ne_of_isDigit (hall '-' (by simp)) (by decide))
    · rfl

lemma form_of_integer? (h : integer? cs = some n) :
    Literal.Form (.int (integerValue (cs.take n))) (cs.take n) := by
  obtain ⟨minus, hminus⟩ := take_minusCount cs
  unfold integer? at h
  dsimp only at h
  split at h
  · cases h
  · rename_i hd
    obtain rfl := Option.some.inj h
    have hds := isDigits_take hd
    rw [List.take_add, hminus, integerValue_digits minus hds]
    exact .int minus hds

/-! ### Floating-point numbers -/

/-- The exponent found at a mark, a sign that may be missing, and digits. -/
lemma exponentForm_take {mark : Char} (sgn ds : List Char) {k : ℤ}
    (hform : ExponentForm (mark :: (sgn ++ ds.take (digitCount ds))) k) :
    (mark :: (sgn ++ ds)).take (1 + sgn.length + digitCount ds) ≠ [] ∧
      ∃ k, ExponentForm ((mark :: (sgn ++ ds)).take (1 + sgn.length + digitCount ds)) k := by
  have htake : (mark :: (sgn ++ ds)).take (1 + sgn.length + digitCount ds) =
      mark :: (sgn ++ ds.take (digitCount ds)) := by
    rw [show 1 + sgn.length + digitCount ds = sgn.length + digitCount ds + 1 by omega,
      List.take_succ_cons, List.take_length_add_append]
  rw [htake]
  exact ⟨by simp, k, hform⟩

lemma exponentForm_of_exponent? (h : exponent? r = some n) :
    r.take n ≠ [] ∧ ∃ k, ExponentForm (r.take n) k := by
  unfold exponent? at h
  split at h
  · split at h
    · rename_i mark r hmark
      dsimp only at h
      split at h
      · cases h
      · rename_i hd
        obtain rfl := Option.some.inj h
        split at hd
        · rename_i ds
          exact exponentForm_take ['+'] ds (.plus hmark (isDigits_take hd))
        · rename_i ds
          exact exponentForm_take ['-'] ds (.minus hmark (isDigits_take hd))
        · exact exponentForm_take [] _ (.plain hmark (isDigits_take hd))
    · cases h
  · cases h

lemma exponentForm_getD (r : List Char) : ∃ k, ExponentForm (r.take ((exponent? r).getD 0)) k := by
  cases hex : exponent? r with
  | none => exact ⟨0, .missing⟩
  | some m => exact (exponentForm_of_exponent? hex).2

lemma isDigit_of_mem_take {d : Char} (h : d ∈ cs.take (digitCount cs)) : isDigit d := by
  rw [digitCount, Grammar.take_length_takeWhile] at h
  exact List.mem_takeWhile_imp h

lemma digitCount_eq_zero_of_take (h : cs.take (digitCount cs) = []) : digitCount cs = 0 := by
  rw [digitCount, Grammar.take_length_takeWhile] at h
  rw [digitCount, h, List.length_nil]

lemma fractionForm_of_fraction? (h : fraction? cs = some n) :
    ∃ ds k, FractionForm (cs.take n) ds k := by
  unfold fraction? at h
  dsimp only at h
  split at h
  · -- a point, with digits on at least one side
    rename_i r hr
    obtain ⟨k, hex⟩ := exponentForm_getD (r.drop (digitCount r))
    split at h
    · cases h
    · rename_i hsome
      obtain rfl := Option.some.inj h
      have hds : IsDigits (cs.take (digitCount cs) ++ r.take (digitCount r)) := by
        refine ⟨fun hnil => hsome ?_, fun d hd => ?_⟩
        · obtain ⟨hw, hf⟩ := List.append_eq_nil_iff.1 hnil
          exact ⟨digitCount_eq_zero_of_take hw, digitCount_eq_zero_of_take hf⟩
        · exact (List.mem_append.1 hd).elim isDigit_of_mem_take isDigit_of_mem_take
      rw [Nat.add_assoc, Nat.add_assoc, Nat.add_comm 1, List.take_add, hr, List.take_succ_cons,
        List.take_add]
      exact ⟨_, _, .point hds hex⟩
  · -- no point, so digits and an exponent
    split at h
    · cases h
    · rename_i hsome
      obtain ⟨m, hm, rfl⟩ := Option.map_eq_some_iff.1 h
      obtain ⟨hne, k, hex⟩ := exponentForm_of_exponent? hm
      rw [List.take_add]
      exact ⟨_, _, .scaled (isDigits_take hsome) hex hne⟩

end Lexeme

/-! ### The value of a decimal fraction -/

namespace Reading

variable {cs ds ex : List Char} {k : ℤ}

open Lexeme (ne_of_isDigit)

lemma not_isBlank_of_isDigit {c : Char} (h : isDigit c) : isBlank c = false := by
  have hall : ∀ z ∈ digitZeros, ∀ d < 10, isBlank (Char.ofNat (z + d)) = false := by decide
  unfold isDigit digitValue? at h
  simp only [Option.isSome_map, List.find?_isSome, Bool.and_eq_true, decide_eq_true_eq] at h
  obtain ⟨z, hz, hle, hlt⟩ := h
  have hc := hall z hz (c.toNat - z) (by omega)
  rwa [show z + (c.toNat - z) = c.toNat by omega, Char.ofNat_toNat] at hc

/-- The characters of a number are no blanks and no underscores. -/
def Numeric (cs : List Char) : Prop := ∀ c ∈ cs, isBlank c = false ∧ c ≠ '_'

lemma numeric_append {ds : List Char} (hcs : Numeric cs) (hds : Numeric ds) :
    Numeric (cs ++ ds) := by
  intro c hc
  exact (List.mem_append.1 hc).elim (hcs c) (hds c)

lemma numeric_cons {c : Char} (hc : isBlank c = false ∧ c ≠ '_') (hcs : Numeric cs) :
    Numeric (c :: cs) := by
  intro d hd
  rcases List.mem_cons.1 hd with rfl | hd
  · exact hc
  · exact hcs d hd

lemma numeric_digits (h : ∀ d ∈ ds, isDigit d) : Numeric ds :=
  fun d hd => ⟨not_isBlank_of_isDigit (h d hd), ne_of_isDigit (h d hd) (by decide)⟩

lemma numeric_exponent (h : ExponentForm ex k) : Numeric ex := by
  have hmark {mark : Char} (h : mark = 'e' ∨ mark = 'E') : isBlank mark = false ∧ mark ≠ '_' := by
    rcases h with rfl | rfl <;> decide
  cases h with
  | missing => simp [Numeric]
  | plain hm hds => exact numeric_cons (hmark hm) (numeric_digits hds.2)
  | plus hm hds | minus hm hds =>
    exact numeric_cons (hmark hm) (numeric_cons (by decide) (numeric_digits hds.2))

lemma numeric_fraction (h : FractionForm cs ds k) : Numeric cs := by
  cases h with
  | @point whole fraction ex k hds hex =>
    have hwhole : Numeric whole := numeric_digits fun d hd => hds.2 d (by simp [hd])
    have hfraction : Numeric fraction := numeric_digits fun d hd => hds.2 d (by simp [hd])
    exact numeric_append hwhole (numeric_cons (by decide)
      (numeric_append hfraction (numeric_exponent hex)))
  | scaled hds hex => exact numeric_append (numeric_digits hds.2) (numeric_exponent hex)

lemma trimBlank_numeric (h : Numeric cs) : trimBlank cs = cs := by
  have hkeep {cs : List Char} (h : Numeric cs) : cs.dropWhile isBlank = cs := by
    cases cs with
    | nil => rfl
    | cons c cs => simp [(h c (by simp)).1]
  have hreverse : Numeric cs.reverse := fun c hc => h c (List.mem_reverse.1 hc)
  rw [trimBlank, hkeep h, hkeep hreverse, List.reverse_reverse]

lemma withoutUnderscores?_numeric (h : Numeric cs) {before : Option Char}
    (hbefore : before ≠ some '_') : withoutUnderscores? before cs = some cs := by
  induction cs generalizing before with
  | nil => simp [withoutUnderscores?, hbefore]
  | cons c cs ih =>
    have hc := (h c (by simp)).2
    have hbefore' : some c ≠ some '_' := by simpa using hc
    have hcs := ih (fun d hd => h d (by simp [hd])) hbefore'
    simp [withoutUnderscores?, hc, hbefore, hcs]

/-- A decimal fraction begins with a digit or the point. -/
lemma exists_head_fraction (h : FractionForm cs ds k) :
    ∃ c r, cs = c :: r ∧ (isDigit c ∨ c = '.') := by
  cases h with
  | @point whole fraction ex k hds hex =>
    cases whole with
    | nil => exact ⟨_, _, rfl, Or.inr rfl⟩
    | cons c r => exact ⟨c, _, rfl, Or.inl (hds.2 c (by simp))⟩
  | scaled hds =>
    cases ds with
    | nil => exact absurd rfl hds.1
    | cons c r => exact ⟨c, _, rfl, Or.inl (hds.2 c (by simp))⟩

lemma sign_cons {c : Char} {r : List Char} (hminus : c ≠ '-') (hplus : c ≠ '+') :
    sign (c :: r) = (false, c :: r) := by
  unfold sign
  split <;> simp_all

lemma sign_digits (h : IsDigits ds) : sign ds = (false, ds) := by
  cases ds with
  | nil => exact absurd rfl h.1
  | cons c r =>
    have hc := h.2 c (by simp)
    exact sign_cons (ne_of_isDigit hc (by decide)) (ne_of_isDigit hc (by decide))

lemma sign_minusSign (minus : Bool) (h : FractionForm cs ds k) :
    sign (minusSign minus ++ cs) = (minus, cs) := by
  cases minus with
  | true => rfl
  | false =>
    obtain ⟨c, r, rfl, hc | rfl⟩ := exists_head_fraction h
    · exact sign_cons (ne_of_isDigit hc (by decide)) (ne_of_isDigit hc (by decide))
    · exact sign_cons (by decide) (by decide)

lemma toLower_eq_self {c : Char} (h : Lexeme.isLetter c = false) : c.toLower = c := by
  unfold Char.toLower
  split
  · rename_i hupper
    have hletter : Lexeme.isLetter c := by
      have hle : 65 ≤ c.toNat ∧ c.toNat ≤ 90 := hupper
      rw [Lexeme.isLetter_iff]
      exact Or.inr (Or.inl hle)
    simp [h] at hletter
  · rfl

/-- A decimal fraction is no word of letters. -/
lemma word?_fraction (minus : Bool) (h : FractionForm cs ds k) : word? minus cs = none := by
  obtain ⟨c, r, rfl, hc⟩ := exists_head_fraction h
  have hletter : Lexeme.isLetter c = false := by
    rcases hc with hc | rfl
    · by_contra hl
      have hdigit := Lexeme.not_isDigit_of_isLetter (by simpa using hl)
      simp [hc] at hdigit
    · decide
  have hne {w : String} {d : Char} {s : List Char} (hw : w.toList = d :: s)
      (hd : Lexeme.isLetter d) : String.ofList ((c :: r).map Char.toLower) ≠ w := by
    intro heq
    have hlist : (c :: r).map Char.toLower = d :: s := by
      rw [← hw, ← heq, String.toList_ofList]
    rw [List.map_cons, toLower_eq_self hletter] at hlist
    obtain ⟨rfl, -⟩ := List.cons.inj hlist
    simp [hletter] at hd
  unfold word?
  split
  · exact absurd ‹_› (hne rfl (by decide))
  · exact absurd ‹_› (hne rfl (by decide))
  · exact absurd ‹_› (hne rfl (by decide))
  · rfl

lemma span_digits {r : List Char} (hds : ∀ d ∈ ds, isDigit d) (hr : r.head?.any isDigit = false) :
    (ds ++ r).span isDigit = (ds, r) := by
  rw [List.span_eq_takeWhile_dropWhile, List.takeWhile_append_of_pos hds,
    List.dropWhile_append_of_pos hds]
  cases r with
  | nil => simp
  | cons d r =>
    have hd : isDigit d = false := by simpa using hr
    simp [hd]

lemma exists_mark (h : ExponentForm ex k) :
    ex = [] ∨ ∃ mark r, ex = mark :: r ∧ (mark = 'e' ∨ mark = 'E') := by
  cases h with
  | missing => exact Or.inl rfl
  | plain hm | plus hm | minus hm => exact Or.inr ⟨_, _, rfl, hm⟩

lemma head_exponent (h : ExponentForm ex k) : ex.head?.any isDigit = false := by
  rcases exists_mark h with rfl | ⟨mark, r, rfl, rfl | rfl⟩
  · rfl
  · rw [List.head?_cons]; decide
  · rw [List.head?_cons]; decide

lemma exponent?_form (h : ExponentForm ex k) : exponent? ex = some k := by
  have hdigits {ds : List Char} (hds : IsDigits ds) :
      (!ds.isEmpty && ds.all isDigit) = true := by
    simpa [hds.1] using hds.2
  cases h with
  | missing => rfl
  | plain hm hds => simp [exponent?, hm, sign_digits hds, hdigits hds, signed]
  | plus hm hds => simp [exponent?, hm, sign, hdigits hds, signed]
  | minus hm hds => simp [exponent?, hm, sign, hdigits hds, signed]

lemma decimal?_fraction (minus : Bool) (h : FractionForm cs ds k) :
    decimal? minus cs = some (.ofDecimal minus (digitsValue ds) k) := by
  have hpoint : isDigit '.' = false := by decide
  cases h with
  | @point whole fraction ex k hds hex =>
    have hwhole : ∀ d ∈ whole, isDigit d := fun d hd => hds.2 d (by simp [hd])
    have hfraction : ∀ d ∈ fraction, isDigit d := fun d hd => hds.2 d (by simp [hd])
    have hne := hds.1
    simp only [decimal?, span_digits hwhole (r := '.' :: (fraction ++ ex)) (by simpa using hpoint),
      span_digits hfraction (head_exponent hex), exponent?_form hex]
    rw [if_neg (by simpa [List.append_eq_nil_iff] using hne)]
    rfl
  | scaled hds hex hne =>
    have hspan := span_digits hds.2 (head_exponent hex)
    have hvalue := exponent?_form hex
    obtain ⟨mark, r, rfl, hmark⟩ := (exists_mark hex).resolve_left hne
    -- the text goes on with a mark and not with a point
    rcases hmark with rfl | rfl <;> simp only [decimal?, hspan] <;> simp [hds.1, hvalue]

/-- A decimal fraction is read as the floating-point number nearest to it. -/
lemma float?_fraction (minus : Bool) (h : FractionForm cs ds k) :
    float? (String.ofList (minusSign minus ++ cs)) =
      some (.ofDecimal minus (digitsValue ds) k) := by
  have hnumeric : Numeric (minusSign minus ++ cs) := by
    refine numeric_append ?_ (numeric_fraction h)
    cases minus with
    | true => exact numeric_cons (by decide) (by simp [Numeric])
    | false => simp [minusSign, Numeric]
  unfold float?
  rw [String.toList_ofList, trimBlank_numeric hnumeric,
    withoutUnderscores?_numeric hnumeric (by simp)]
  simp [sign_minusSign minus h, word?_fraction minus h, decimal?_fraction minus h]

end Reading

namespace Lexeme

variable {cs : List Char} {n : ℕ}

lemma form_of_float? (h : float? cs = some n) :
    Literal.Form (.float ((Reading.float? (String.ofList (cs.take n))).getD .nan)) (cs.take n) := by
  obtain ⟨minus, hminus⟩ := take_minusCount cs
  obtain ⟨m, hm, rfl⟩ := Option.map_eq_some_iff.1 h
  obtain ⟨ds, k, hform⟩ := fractionForm_of_fraction? hm
  rw [List.take_add, hminus, Reading.float?_fraction minus hform]
  exact .float minus hform

/-! ### Quoted texts and truth values -/

lemma quotedForm_of_quotedRest? {r : List Char} (h : quotedRest? r = some n) :
    ∃ cs vs, r.take n = cs ++ ['"'] ∧ QuotedForm cs vs ∧ unescape cs = vs := by
  fun_induction quotedRest? r generalizing n with
  | case1 => cases h
  | case2 r =>
    obtain rfl := Option.some.inj h
    exact ⟨[], [], rfl, .nil, rfl⟩
  | case3 r => cases h
  | case4 c r hline ih =>
    obtain ⟨m, hm, rfl⟩ := Option.map_eq_some_iff.1 h
    obtain ⟨cs, vs, htake, hform, hvalue⟩ := ih hm
    refine ⟨'\\' :: c :: cs, _, ?_, .escaped hline hform, ?_⟩
    · rw [Nat.add_comm, List.take_succ_cons, List.take_succ_cons, htake]
      rfl
    · rw [unescape, hvalue]
  | case5 => cases h
  | case6 c r hquote hpair hplain ih =>
    obtain ⟨m, hm, rfl⟩ := Option.map_eq_some_iff.1 h
    obtain ⟨cs, vs, htake, hform, hvalue⟩ := ih hm
    rw [not_or] at hplain
    refine ⟨c :: cs, _, ?_, .plain hquote hplain.2 hplain.1 hform, ?_⟩
    · rw [Nat.add_comm, List.take_succ_cons, htake]
      rfl
    · rw [unescape.eq_3 c _ fun d r hr => absurd hr hplain.2, hvalue]

lemma form_of_string? (h : string? cs = some n) :
    Literal.Form (.text (String.ofList (unescape ((cs.take n).drop 1).dropLast))) (cs.take n) := by
  unfold string? at h
  split at h
  · rename_i r
    obtain ⟨m, hm, rfl⟩ := Option.map_eq_some_iff.1 h
    obtain ⟨cs, vs, htake, hform, hvalue⟩ := quotedForm_of_quotedRest? hm
    have hquoted : ('"' :: r).take (1 + m) = '"' :: (cs ++ ['"']) := by
      rw [Nat.add_comm, List.take_succ_cons, htake]
    have hinner : ('"' :: (cs ++ ['"'])).drop 1 = cs ++ ['"'] := rfl
    rw [hquoted, hinner, List.dropLast_concat, hvalue]
    exact .text hform
  · cases h

lemma form_of_boolean? (h : boolean? cs = some n) :
    Literal.Form (.bool (cs.take n == "true".toList)) (cs.take n) := by
  obtain ⟨w, hw, hword⟩ := List.exists_of_findSome?_eq_some h
  rw [(take_of_word? hword).1]
  rcases List.mem_pair.1 hw with rfl | rfl
  · exact .bool true
  · exact .bool false

end Lexeme

lemma Literal.Form.ne_nil {v : Literal} {cs : List Char} (h : v.Form cs) : cs ≠ [] := by
  cases h with
  | int minus h => simp [h.1]
  | float minus h =>
    obtain ⟨c, r, rfl, -⟩ := Reading.exists_head_fraction h
    simp
  | text h => simp
  | bool b => cases b <;> decide

end Primer
