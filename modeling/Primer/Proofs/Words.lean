import Mathlib.Tactic
import Primer.Proofs.RuleTakes
import Primer.Proofs.TreeShape

/-!
Words and the text that follows them.

A word that is followed by a blank is measured as a whole: as the keyword, the name or the number it
is and as nothing else. A text that is quoted with its quotes, backslashes and line ends escaped
reads back as itself.
-/

namespace Primer

namespace Lexeme

open Text

/-! ### Characters -/

lemma isDigit_iff_of_ascii {c : Char} (h : c.toNat < 128) :
    isDigit c ↔ 48 ≤ c.toNat ∧ c.toNat ≤ 57 := by
  have hzeros : ∀ z ∈ digitZeros, z = 48 ∨ 128 ≤ z := by decide
  have hmem : 48 ∈ digitZeros := by decide
  simp only [isDigit, digitValue?, Option.isSome_map, List.find?_isSome, Bool.and_eq_true,
    decide_eq_true_eq]
  constructor
  · rintro ⟨z, hz, h1, h2⟩
    rcases hzeros z hz with rfl | hz
    · omega
    · omega
  · intro hc
    exact ⟨48, hmem, by omega, by omega⟩

lemma isLetter_iff {c : Char} : isLetter c ↔
    (97 ≤ c.toNat ∧ c.toNat ≤ 122) ∨ (65 ≤ c.toNat ∧ c.toNat ≤ 90) ∨ c.toNat = 95 := by
  have heq : c = '_' ↔ c.toNat = 95 := by
    rw [← Char.toNat_inj]
    rfl
  simp only [isLetter, Bool.or_eq_true, Bool.and_eq_true, decide_eq_true_eq, beq_iff_eq, heq,
    or_assoc]
  rfl

lemma not_isDigit_of_isLetter {c : Char} (h : isLetter c) : isDigit c = false := by
  rw [isLetter_iff] at h
  rw [← Bool.not_eq_true, isDigit_iff_of_ascii (by omega)]
  omega

lemma ne_of_isLetter {c d : Char} (h : isLetter c) (hd : isLetter d = false) : c ≠ d := by
  rintro rfl
  simp [h] at hd

/-- A run of characters of a class ends where the class does. -/
lemma run_inj {f : Char → Bool} {u v r s : List Char} (hu : ∀ c ∈ u, f c) (hv : ∀ c ∈ v, f c)
    (hr : r.head?.any f = false) (hs : s.head?.any f = false) (h : u ++ r = v ++ s) :
    u = v ∧ r = s := by
  have htake : ∀ {w q : List Char}, (∀ c ∈ w, f c) → q.head?.any f = false →
      (w ++ q).takeWhile f = w := by
    intro w q hw hq
    have hstop : q.takeWhile f = [] := by cases q <;> simp_all
    rw [List.takeWhile_append_of_pos hw, hstop, List.append_nil]
  have huv : u = v := by rw [← htake hu hr, h, htake hv hs]
  exact ⟨huv, List.append_cancel_left (huv ▸ h)⟩

/-! ### Keywords and names -/

/-- The text ends here or goes on with a character that belongs to no word. -/
def WordEnd (rest : List Char) : Prop := rest.head?.any isWordChar = false

lemma wordEnd_nil : WordEnd [] := rfl

lemma wordEnd_cons {c : Char} {r : List Char} (hc : isWordChar c = false) : WordEnd (c :: r) := by
  simpa [WordEnd] using hc

lemma wordEnd_blank {r : List Char} : WordEnd (' ' :: r) := wordEnd_cons (by decide)

lemma word?_append {w : String} {x rest : List Char} (hw : w.toList.all isWordChar)
    (hx : x.all isWordChar) (hrest : WordEnd rest) :
    word? w (x ++ rest) = if w.toList = x then some x.length else none := by
  unfold word?
  by_cases hwx : w.toList = x
  · have hlen : w.length = x.length := by rw [← hwx, String.length_toList]
    rw [hwx, hlen, List.drop_left, hrest]
    simp
  · rw [if_neg hwx, if_neg]
    simp only [Bool.and_eq_true, List.isPrefixOf_iff_prefix, Bool.not_eq_true', not_and,
      Bool.not_eq_false]
    intro hpre
    -- two words at the same place: the shorter one is followed by a character of the longer one
    rcases List.prefix_or_prefix_of_prefix hpre (List.prefix_append x rest) with ⟨t, ht⟩ | ⟨t, ht⟩
    · cases t with
      | nil => exact absurd (by simpa using ht) hwx
      | cons d t =>
        have hd : isWordChar d := List.all_eq_true.1 hx d (by simp [← ht])
        rw [← ht, ← String.length_toList, List.append_assoc, List.drop_left]
        simpa using hd
    · cases t with
      | nil => exact absurd (by simpa using ht.symm) hwx
      | cons d t =>
        have hd : isWordChar d := List.all_eq_true.1 hw d (by simp [← ht])
        rw [← ht, List.prefix_append_right_inj] at hpre
        obtain ⟨u, rfl⟩ := hpre
        simp [WordEnd, hd] at hrest

lemma anyWord?_append {ws : List String} {x : String} {rest : List Char}
    (hws : ∀ w ∈ ws, w.toList.all isWordChar) (hx : x.toList.all isWordChar)
    (hrest : WordEnd rest) :
    anyWord? ws (x.toList ++ rest) = if x ∈ ws then some x.length else none := by
  unfold anyWord?
  induction ws with
  | nil => simp
  | cons w ws ih =>
    have hw := word?_append (hws w (by simp)) hx hrest
    rw [List.findSome?_cons, hw]
    by_cases h : w = x
    · simp [h, String.length_toList]
    · rw [if_neg fun he => h (String.toList_inj.1 he)]
      simp [ih fun v hv => hws v (by simp [hv]), Ne.symm h]

lemma all_isWordChar_of_mem_keywords {w : String} (h : w ∈ keywords) :
    w.toList.all isWordChar := by
  revert w
  decide

lemma word?_ne {w x : String} {rest : List Char} (hw : w.toList.all isWordChar)
    (hx : x.toList.all isWordChar) (hrest : WordEnd rest) (h : w ≠ x) :
    word? w (x.toList ++ rest) = none := by
  rw [word?_append hw hx hrest, if_neg fun he => h (String.toList_inj.1 he)]

lemma word?_self {w : String} {rest : List Char} (hw : w.toList.all isWordChar)
    (hrest : WordEnd rest) : word? w (w.toList ++ rest) = some w.toList.length := by
  rw [word?_append hw hw hrest, if_pos rfl]

/-- The rule for types tries the names of types and no other words. -/
lemma typeAlternatives_eq : typeAlternatives = typeNames := rfl

/-- The rule for keywords tries the words that are never names and no other ones. -/
lemma keywordAlternatives_eq : keywordAlternatives = keywords := rfl

lemma typeName?_eq (cs : List Char) : typeName? cs = anyWord? typeNames cs := by
  rw [typeName?, typeAlternatives_eq]

lemma keyword?_eq (cs : List Char) : keyword? cs = anyWord? keywords cs := by
  rw [keyword?, keywordAlternatives_eq]

lemma typeName?_append {t : String} {rest : List Char} (ht : t ∈ typeNames)
    (hrest : WordEnd rest) : typeName? (t.toList ++ rest) = some t.toList.length := by
  have hkey : ∀ w ∈ typeNames, w.toList.all isWordChar := fun w hw =>
    all_isWordChar_of_mem_keywords (List.mem_append_left _ hw)
  rw [typeName?_eq, anyWord?_append hkey (hkey t ht) hrest, if_pos ht, String.length_toList]

lemma typeName?_eq_none {x : String} {rest : List Char} (hx : x.toList.all isWordChar)
    (h : x ∉ typeNames) (hrest : WordEnd rest) : typeName? (x.toList ++ rest) = none := by
  have hkey : ∀ w ∈ typeNames, w.toList.all isWordChar := fun w hw =>
    all_isWordChar_of_mem_keywords (List.mem_append_left _ hw)
  rw [typeName?_eq, anyWord?_append hkey hx hrest, if_neg h]

lemma boolean?_append (b : Bool) {rest : List Char} (hrest : WordEnd rest) :
    boolean? ((toString b).toList ++ rest) = some (toString b).toList.length := by
  have hws : ∀ w ∈ ["true", "false"], w.toList.all isWordChar := by decide
  have hmem : toString b ∈ ["true", "false"] := by cases b <;> decide
  rw [boolean?, anyWord?_append hws (hws _ hmem) hrest, if_pos hmem, String.length_toList]

open Node (IsName)

lemma exists_cons_of_isName {x : String} (h : IsName x) :
    ∃ c r, x.toList = c :: r ∧ isLetter c ∧ r.all isWordChar := by
  obtain ⟨-, hc, hr⟩ := h
  cases hx : x.toList with
  | nil => simp [hx] at hc
  | cons c r =>
    rw [hx] at hc hr
    rw [List.all_cons, Bool.and_eq_true] at hr
    exact ⟨c, r, rfl, hc, hr.2⟩

lemma name?_append {x : String} {rest : List Char} (hx : IsName x) (hrest : WordEnd rest) :
    name? (x.toList ++ rest) = some x.toList.length := by
  have hkey : keyword? (x.toList ++ rest) = none := by
    rw [keyword?_eq, anyWord?_append (fun w hw => all_isWordChar_of_mem_keywords hw) hx.2.2 hrest,
      if_neg hx.1]
  obtain ⟨c, r, hcr, hc, hr⟩ := exists_cons_of_isName hx
  have htake : (r ++ rest).takeWhile isWordChar = r := by
    rw [List.takeWhile_append_of_pos (by simpa using hr)]
    cases rest with
    | nil => simp
    | cons d rest => simp [show isWordChar d = false by simpa [WordEnd] using hrest]
  unfold name?
  rw [hkey, hcr, List.cons_append]
  simp only [Option.isSome_none, Bool.false_eq_true, if_false, hc, if_true, htake,
    List.length_cons, Nat.add_comm]

lemma boolean?_eq_none {x : String} {rest : List Char} (hx : x.toList.all isWordChar)
    (h : x ∉ ["true", "false"]) (hrest : WordEnd rest) : boolean? (x.toList ++ rest) = none := by
  rw [boolean?, anyWord?_append (by decide) hx hrest, if_neg h]

lemma name?_eq_none {c : Char} (hc : isLetter c = false) (r : List Char) :
    name? (c :: r) = none := by
  simp [name?, hc]

lemma word?_eq_none_of_wordEnd {w : String} {rest : List Char} (hw : w.toList.all isWordChar)
    (hne : w ≠ "") (hrest : WordEnd rest) : word? w rest = none := by
  have hempty : w.toList ≠ [] := fun h => hne (String.toList_inj.1 h)
  have h := word?_append (x := []) hw rfl hrest
  rwa [if_neg hempty] at h

/-! ### Numbers -/

lemma digitValue?_digitChar {d : ℕ} (h : d < 10) : digitValue? d.digitChar = some d := by
  interval_cases d <;> decide

lemma digitsValue_append_singleton (cs : List Char) {c : Char} {d : ℕ}
    (h : digitValue? c = some d) : digitsValue (cs ++ [c]) = 10 * digitsValue cs + d := by
  simp [digitsValue, h]

lemma digitsValue_toDigits (n : ℕ) : digitsValue (Nat.toDigits 10 n) = n := by
  induction n using Nat.strong_induction_on with
  | _ n ih =>
    rcases Nat.lt_or_ge n 10 with hn | hn
    · rw [Nat.toDigits_of_lt_base hn]
      simp [digitsValue, digitValue?_digitChar hn]
    · rw [Nat.toDigits_of_base_le (by omega) hn,
        digitsValue_append_singleton _ (digitValue?_digitChar (Nat.mod_lt n (by omega))),
        ih _ (by omega)]
      omega

lemma toNat_of_mem_toDigits {n : ℕ} {c : Char} (h : c ∈ Nat.toDigits 10 n) :
    48 ≤ c.toNat ∧ c.toNat ≤ 57 := by
  have hc := Nat.isDigit_of_mem_toDigits (by omega) (by omega) h
  simp only [Char.isDigit, Bool.and_eq_true, decide_eq_true_eq] at hc
  exact hc

lemma isDigit_of_mem_toDigits {n : ℕ} {c : Char} (h : c ∈ Nat.toDigits 10 n) : isDigit c := by
  have hc := toNat_of_mem_toDigits h
  rwa [isDigit_iff_of_ascii (by omega)]

lemma digitCount_toDigits (n : ℕ) (r : List Char) :
    digitCount (Nat.toDigits 10 n ++ ' ' :: r) = (Nat.toDigits 10 n).length := by
  have hblank : isDigit ' ' = false := by decide
  rw [digitCount, List.takeWhile_append_of_pos fun c hc => isDigit_of_mem_toDigits hc]
  simp [hblank]

/-- What a whole number is written as: its digits, after a minus sign if it is negative. -/
lemma toList_toString (n : ℤ) : (toString n).toList =
    (if n < 0 then ['-'] else []) ++ Nat.toDigits 10 n.natAbs := by
  cases n with
  | ofNat m =>
    change (Nat.repr m).toList = _
    simp [Nat.toList_repr]
  | negSucc m =>
    change ("-" ++ Nat.repr (m + 1)).toList = _
    simp [Nat.toList_repr, Int.negSucc_lt_zero]

lemma exists_cons_toDigits (n : ℕ) :
    ∃ c r, Nat.toDigits 10 n = c :: r ∧ 48 ≤ c.toNat ∧ c.toNat ≤ 57 := by
  cases h : Nat.toDigits 10 n with
  | nil => exact absurd h Nat.toDigits_ne_nil
  | cons c r => exact ⟨c, r, rfl, toNat_of_mem_toDigits (n := n) (by simp [h])⟩

lemma ne_minus_of_digit {c : Char} (h : 48 ≤ c.toNat) : c ≠ '-' := by
  rintro rfl
  exact absurd h (by decide)

lemma minusCount_toString (n : ℤ) (r : List Char) :
    minusCount ((toString n).toList ++ r) = if n < 0 then 1 else 0 := by
  obtain ⟨c, ds, hds, hdigit, -⟩ := exists_cons_toDigits n.natAbs
  have hc := ne_minus_of_digit hdigit
  rw [toList_toString, hds]
  split
  · rfl
  · unfold minusCount
    split
    · simp_all
    · rfl

/-- The text of a number behind its minus sign. -/
lemma drop_minus_toString (n : ℤ) (r : List Char) :
    ((toString n).toList ++ r).drop (minusCount ((toString n).toList ++ r)) =
      Nat.toDigits 10 n.natAbs ++ r := by
  rw [minusCount_toString, toList_toString]
  split <;> simp

lemma integer?_toString (n : ℤ) (r : List Char) :
    integer? ((toString n).toList ++ ' ' :: r) = some (toString n).toList.length := by
  unfold integer?
  simp only [drop_minus_toString, digitCount_toDigits]
  split
  · rename_i h
    exact absurd h (Nat.ne_of_gt Nat.length_toDigits_pos)
  · rw [minusCount_toString, toList_toString]
    split <;> simp [Nat.add_comm]

lemma integerValue_toString (n : ℤ) : integerValue (toString n).toList = n := by
  obtain ⟨c, ds, hds, hdigit, -⟩ := exists_cons_toDigits n.natAbs
  have hvalue := digitsValue_toDigits n.natAbs
  rw [toList_toString]
  split
  · simp only [List.cons_append, List.nil_append, integerValue, hvalue, signed, if_true]
    omega
  · have hminus : ∀ r, Nat.toDigits 10 n.natAbs ≠ '-' :: r := by
      intro r hr
      rw [hds] at hr
      exact ne_minus_of_digit hdigit (List.cons.inj hr).1
    rw [List.nil_append, integerValue.eq_2 _ hminus, hvalue]
    simp only [signed, Bool.false_eq_true, if_false]
    omega

lemma integer?_eq_none {c : Char} (hc : c ≠ '-') (hd : isDigit c = false) (r : List Char) :
    integer? (c :: r) = none := by
  have hminus : minusCount (c :: r) = 0 := by
    unfold minusCount
    split <;> simp_all
  simp [integer?, hminus, digitCount, hd]

lemma float?_eq_none {c : Char} (hc : c ≠ '-') (hd : isDigit c = false) (hp : c ≠ '.')
    (r : List Char) : float? (c :: r) = none := by
  have hminus : minusCount (c :: r) = 0 := by
    unfold minusCount
    split <;> simp_all
  simp [float?, hminus, fraction?, digitCount, hd, hp]

/-! ### Quoted texts -/

/-- A text with its quotes, backslashes and line ends escaped. -/
def escape : List Char → List Char
  | [] => []
  | c :: r =>
    if c = '"' then '\\' :: '"' :: escape r
    else if c = '\\' then '\\' :: '\\' :: escape r
    else if c = '\n' then '\\' :: 'n' :: escape r
    else c :: escape r

end Lexeme

/-! ### The rules for words -/

namespace Grammar

open Rule Lexeme Text

variable {text rest r : List Char} {x : String}

/-- The text ends here or goes on with neither a blank nor a comment. -/
def Solid (r : List Char) : Prop := r.head?.any isBlank = false ∧ comment? r = none

lemma solid_nil : Solid [] := ⟨rfl, rfl⟩

lemma solid_cons {c : Char} (hb : isBlank c = false) (hc : c ≠ '/') : Solid (c :: r) := by
  refine ⟨by simpa using hb, ?_⟩
  unfold comment?
  split <;> simp_all

lemma rejects_layout (h : Solid r) : Rejects text (blanks <|> comment) r := by
  refine .orElse (.ignore (.lexeme ?_)) (.ignore (.lexeme h.2))
  obtain ⟨hb, -⟩ := h
  cases r <;> simp_all [blanks?]

lemma takes_gap_nil (h : Solid r) : Takes text gap [] r (fun _ => True) := by
  have hrow : Takes text (many (blanks <|> comment)) (([] : List Unit).flatMap fun _ => []) r
      (List.Forall₂ (fun _ _ => True) []) :=
    Takes.many (by simp) (by simp) (rejects_layout h)
  exact hrow.ignore

lemma takes_sign (s : String) : Takes text (sign s) s.toList rest (fun _ => True) := by
  refine .ignore (.lexeme ?_)
  simp [sign?, List.isPrefixOf_iff_prefix, String.length_toList]

lemma rejects_sign {s : String} (h : ¬ s.toList <+: rest) : Rejects text (sign s) rest := by
  refine .ignore (.lexeme ?_)
  simpa [sign?, List.isPrefixOf_iff_prefix] using h

lemma takes_word {w : String} (hw : w.toList.all isWordChar) (hrest : WordEnd rest) :
    Takes text (word w) w.toList rest (fun _ => True) :=
  .ignore (.lexeme (word?_self hw hrest))

lemma rejects_word {w : String} (h : word? w rest = none) : Rejects text (word w) rest :=
  .ignore (.lexeme h)

lemma takes_textOf {measure : List Char → Option ℕ}
    (h : measure (x.toList ++ rest) = some x.toList.length) :
    Takes text (textOf measure) x.toList rest (· = x) :=
  (Takes.lexeme h).map fun _ hcs => .pure (by rw [hcs, String.ofList_toList])

lemma rejects_textOf {measure : List Char → Option ℕ} (h : measure rest = none) :
    Rejects text (textOf measure) rest :=
  .bind (.lexeme h)

end Grammar

end Primer
