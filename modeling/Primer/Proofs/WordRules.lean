import Mathlib.Tactic
import Primer.Grammar.Named
import Primer.Proofs.BuiltTrees
import Primer.Proofs.Words

/-!
What the rules for single words make of a word.

A word ends where its letters and digits end. At the start of a word each of these rules either
takes the whole word or nothing: a name unless the word is reserved, a type or a truth value if it
is one, and a keyword only as itself. Neither the text before the word nor the text behind its end
matters.
-/

namespace Primer

namespace Lexeme

def IsWord (w : String) : Prop := w.toList.head?.any isLetter ∧ w.toList.all isWordChar

variable {w : String} {rest : List Char}

lemma name?_word (hw : IsWord w) (hrest : WordEnd rest) :
    name? (w.toList ++ rest) = if w ∉ keywords then some w.toList.length else none := by
  by_cases h : w ∈ keywords
  · have hkey : keyword? (w.toList ++ rest) = some w.length := by
      rw [keyword?_eq, anyWord?_append (fun v hv => all_isWordChar_of_mem_keywords hv) hw.2 hrest,
        if_pos h]
    rw [if_neg (not_not.2 h)]
    unfold name?
    rw [hkey]
    rfl
  · rw [if_pos h, name?_append ⟨h, hw⟩ hrest]

lemma typeName?_word (hw : IsWord w) (hrest : WordEnd rest) :
    typeName? (w.toList ++ rest) = if w ∈ typeNames then some w.toList.length else none := by
  by_cases h : w ∈ typeNames
  · rw [if_pos h, typeName?_append h hrest]
  · rw [if_neg h, typeName?_eq_none hw.2 h hrest]

lemma boolean?_word (hw : IsWord w) (hrest : WordEnd rest) :
    boolean? (w.toList ++ rest) =
      if w = "true" ∨ w = "false" then some w.toList.length else none := by
  split_ifs with h
  · rcases h with rfl | rfl
    · exact boolean?_append true hrest
    · exact boolean?_append false hrest
  · exact boolean?_eq_none hw.2 (by simpa using h) hrest

lemma word?_word {k : String} (hk : k.toList.all isWordChar) (hw : IsWord w)
    (hrest : WordEnd rest) :
    word? k (w.toList ++ rest) = if w = k then some w.toList.length else none := by
  simp only [word?_append hk hw.2 hrest, String.toList_inj, eq_comm]

end Lexeme

namespace Grammar

open Rule Lexeme

variable {depth : ℕ} {rule before w rest k : String}

/-! ### Rules that measure one word -/

section Within

variable {α : Type} {text : String} {i j : ℕ} {r : Rule Piece} {q : Rule α} {a : α}
  {R : ℕ → ℕ → Piece → α → Prop}

lemma cursor_eq_within (hi : i ≤ text.toList.length) :
    (⟨restFrom text.toList i, .ofIndex text.toList i⟩ : Cursor) = .within text.toList i := by
  rw [Cursor.within, ← Position.ofIndex_eq_advance hi]
  rfl

/-- A named rule matches up to where any rule does that matches the same. -/
lemma matchEnd?_of_accept (hrule : (rules depth).lookup rule = some r)
    (hr : Matches text.toList r q R) (hi : i ≤ text.toList.length) (hj : j ≤ text.toList.length)
    (h : q (.within text.toList i) = .accept a (.within text.toList j)) :
    matchEnd? depth rule text i = some (j : ℤ) := by
  obtain ⟨n, hn⟩ := (hr.accept_iff hi).2 ⟨a, h⟩
  rw [matchEnd?, hrule, cursor_eq_within hi, Option.bind_eq_bind, Option.bind_some, hn]
  change some (Cursor.within _ _).pos.offset = _
  rw [Cursor.offset_within, Nat.min_eq_left hj]

lemma matchEnd?_of_reject (hrule : (rules depth).lookup rule = some r)
    (hr : Matches text.toList r q R) (hi : i ≤ text.toList.length)
    (h : q (.within text.toList i) = .reject) : matchEnd? depth rule text i = none := by
  rw [matchEnd?, hrule, cursor_eq_within hi, Option.bind_eq_bind, Option.bind_some,
    (hr.reject_iff hi).2 h]

end Within

/-- The rule takes the whole word `w` in front of `rest` if `p` holds, and else it does not match at
the start of the word. -/
def TakesWordIff (depth : ℕ) (rule before w rest : String) (p : Prop) [Decidable p] : Prop :=
  matchEnd? depth rule (before ++ w ++ rest) before.length =
    if p then some ((before ++ w).length : ℤ) else none

/-- A rule of the grammar that measures a word does with it what the measure says. -/
lemma takesWordIff_of_measure {r : Rule Piece} {measure : List Char → Option ℕ}
    {R : ℕ → ℕ → Piece → List Char → Prop} {p : Prop} [Decidable p]
    (hrule : (rules depth).lookup rule = some r)
    (hr : Matches (before ++ w ++ rest).toList r (lexeme measure) R)
    (hmeasure : measure (w.toList ++ rest.toList) = if p then some w.toList.length else none) :
    TakesWordIff depth rule before w rest p := by
  have htext : (before ++ w ++ rest).toList = before.toList ++ (w.toList ++ rest.toList) := by
    rw [String.toList_append, String.toList_append, List.append_assoc]
  have hdrop : (before ++ w ++ rest).toList.drop before.length = w.toList ++ rest.toList := by
    rw [htext, ← String.length_toList, List.drop_left]
  have hlength : before.length + w.toList.length ≤ (before ++ w ++ rest).toList.length := by
    simp [htext, ← String.length_toList]
  rw [TakesWordIff, String.length_append, ← w.length_toList]
  split at hmeasure
  · obtain ⟨_, haccept, -⟩ := Takes.lexeme hmeasure before.length hdrop
    rw [if_pos ‹p›]
    exact matchEnd?_of_accept hrule hr (by omega) hlength haccept
  · rw [if_neg ‹¬ p›]
    exact matchEnd?_of_reject hrule hr (by omega) (Rejects.lexeme hmeasure _ hdrop)

/-- A rule that takes a whole word or nothing takes no part of a word. -/
lemma TakesWordIff.not_part {u v : String} {p : Prop} [Decidable p]
    (h : TakesWordIff depth rule before w rest p) (hw : w = u ++ v) (hv : v ≠ "") :
    matchEnd? depth rule (before ++ w ++ rest) before.length ≠ some ((before ++ u).length : ℤ) := by
  have hpos : v.length ≠ 0 := fun hzero => hv (String.length_eq_zero_iff.1 hzero)
  unfold TakesWordIff at h
  rw [h]
  split
  · simp only [hw, String.length_append, ne_eq, Option.some.injEq]
    omega
  · simp

/-! ### The rules for keywords -/

/-- Every rule with the name of a keyword reads this keyword. -/
lemma lookup_keyword (h : "kw_" ++ k ∈ (rules depth).map Prod.fst) :
    (rules depth).lookup ("kw_" ++ k) = some (Pieces.keyword k) ∧ k.toList.all isWordChar := by
  have hnames : ∀ n ∈ (rules depth).map Prod.fst, "kw_".toList <+: n.toList →
      n ∈ ["int", "main", "if", "else", "while", "return"].map ("kw_" ++ ·) := by
    have hsame : (rules depth).map Prod.fst = (rules 0).map Prod.fst := by
      simp only [rules, List.map_cons, List.map_nil]
    rw [hsame]
    decide +kernel
  obtain ⟨v, hv, heq⟩ := List.mem_map.1 (hnames _ h (by simp))
  obtain rfl : v = k := by simpa [← String.toList_inj] using heq
  simp only [List.mem_cons, List.not_mem_nil, or_false] at hv
  rcases hv with rfl | rfl | rfl | rfl | rfl | rfl <;> exact ⟨rfl, rfl⟩

/-- The rules that read names, types, truth values and single keywords. -/
def IsWordRule (depth : ℕ) (rule : String) : Prop :=
  rule ∈ ["identifier", "type_name", "boolean_lit"] ∨
    ∃ k, rule = "kw_" ++ k ∧ rule ∈ (rules depth).map Prod.fst

/-- **Words**: at the start of a word that is followed by no more letters or digits, the rule for
names takes the whole word unless it is reserved, the rule for types takes it if it is a type, the
rule for truth values if it is one of the two, and the rule of a keyword if it is that keyword.
Otherwise they do not match, and none of them ever takes only a part of the word. -/
theorem word_classified (depth : ℕ) (before w rest : String) (hw : IsWord w)
    (hrest : WordEnd rest.toList) :
    TakesWordIff depth "identifier" before w rest (w ∉ keywords) ∧
    TakesWordIff depth "type_name" before w rest (w ∈ typeNames) ∧
    TakesWordIff depth "boolean_lit" before w rest (w = "true" ∨ w = "false") ∧
    (∀ k, "kw_" ++ k ∈ (rules depth).map Prod.fst →
      TakesWordIff depth ("kw_" ++ k) before w rest (w = k)) ∧
    ∀ rule, IsWordRule depth rule → ∀ u v, w = u ++ v → v ≠ "" →
      matchEnd? depth rule (before ++ w ++ rest) before.length ≠
        some ((before ++ u).length : ℤ) := by
  have hname : TakesWordIff depth "identifier" before w rest (w ∉ keywords) :=
    takesWordIff_of_measure rfl builds_identifier (name?_word hw hrest)
  have htype : TakesWordIff depth "type_name" before w rest (w ∈ typeNames) :=
    takesWordIff_of_measure rfl (matches_token _ _) (typeName?_word hw hrest)
  have hbool : TakesWordIff depth "boolean_lit" before w rest (w = "true" ∨ w = "false") :=
    takesWordIff_of_measure rfl (matches_token _ _) (boolean?_word hw hrest)
  have hkey : ∀ k, "kw_" ++ k ∈ (rules depth).map Prod.fst →
      TakesWordIff depth ("kw_" ++ k) before w rest (w = k) := by
    intro k hk
    obtain ⟨hlookup, hchars⟩ := lookup_keyword hk
    exact takesWordIff_of_measure hlookup (matches_token _ _) (word?_word hchars hw hrest)
  refine ⟨hname, htype, hbool, hkey, ?_⟩
  rintro rule (hrule | ⟨k, rfl, hk⟩) u v huv hv
  · simp only [List.mem_cons, List.not_mem_nil, or_false] at hrule
    rcases hrule with rfl | rfl | rfl
    · exact hname.not_part huv hv
    · exact htype.not_part huv hv
    · exact hbool.not_part huv hv
  · exact (hkey k hk).not_part huv hv

/-- A word that begins with a keyword, behind a keyword. -/
theorem iffy_classified : IsWord "iffy" ∧ WordEnd " = 1;".toList ∧
    matchEnd? 0 "identifier" "else iffy = 1;" 5 = some 9 ∧
    matchEnd? 0 "kw_if" "else iffy = 1;" 5 = none := by
  have hword : IsWord "iffy" := ⟨rfl, rfl⟩
  obtain ⟨hname, -, -, hkey, -⟩ := word_classified 0 "else " "iffy" " = 1;" hword rfl
  exact ⟨hword, rfl, hname, hkey "if" (by decide +kernel)⟩

end Grammar

end Primer
