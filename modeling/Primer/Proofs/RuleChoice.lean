import Mathlib.Tactic
import Primer.Proofs.Words

/-!
Which rule takes a text.

The rules of the grammar are tried one after the other, and how a text begins settles which of them
does not reject: a letter begins no number and no quoted text, a sign stands for one operator unless
a longer one was tried before it, and the first word of a statement says what statement it is.
-/

namespace Primer.Grammar

open Rule Lexeme Text

variable {text rest r : List Char}

/-! ### Literals and names -/

lemma rejects_leaf {measure : List Char → Option ℕ} {meaning : List Char → Option Span → Tree}
    (h : measure rest = none) : Rejects text (leaf measure meaning) rest :=
  .bind (.located (.lexeme h))

lemma rejects_paren {x : Rule Tree} {c : Char} (hc : c ≠ '(') :
    Rejects text (paren x) (c :: r) :=
  .bind (rejects_sign (by simpa using hc.symm))

/-- A word of letters is no number and no quoted text. -/
lemma takes_primary_of_isLetter {x : Rule Tree} {c : Char} {cs : List Char} {Q : Tree → Prop}
    (hc : isLetter c)
    (h : Takes text (booleanLiteral <|> variableName) (c :: cs) rest Q) :
    Takes text (primary x) (c :: cs) rest Q := by
  have hdigit := not_isDigit_of_isLetter hc
  have hne {d : Char} (hd : isLetter d = false) : c ≠ d := ne_of_isLetter hc hd
  refine .orElse_right (rejects_paren (hne (by decide))) ?_
  refine .orElse_right (rejects_leaf ?_) ?_
  · exact float?_eq_none (hne (by decide)) hdigit (hne (by decide)) _
  refine .orElse_right (rejects_leaf ?_) ?_
  · exact integer?_eq_none (hne (by decide)) hdigit _
  refine .orElse_right (rejects_leaf ?_) h
  have hquote := hne (d := '"') (by decide)
  unfold string?
  split <;> simp_all

/-! ### Operators -/

def signs : ℕ → List String
  | 0 => comparisonSigns
  | 1 => additiveSigns
  | 2 => multiplicativeSigns
  | _ => []

lemma lt_of_mem_signs {k : ℕ} {op : String} (h : op ∈ signs k) : k < 3 := by
  unfold signs at h
  split at h <;> simp_all

lemma length_of_mem_signs {k : ℕ} {op : String} (h : op ∈ signs k) :
    1 ≤ op.toList.length ∧ op.toList.length ≤ 2 := by
  have hall : ∀ j < 3, ∀ s ∈ signs j, 1 ≤ s.toList.length ∧ s.toList.length ≤ 2 := by decide
  exact hall k (lt_of_mem_signs h) op h

lemma takes_operator_of_mem {ss : List String} {op : String} (hop : op ∈ ss)
    (h : ∀ s ∈ ss.takeWhile (· ≠ op), ¬ s.toList <+: op.toList ++ rest) :
    Takes text (operator ss) op.toList rest (· = op) := by
  induction ss with
  | nil => simp at hop
  | cons s ss ih =>
    by_cases hs : s = op
    · subst hs
      exact .orElse_left ((takes_sign s).map fun _ _ => .pure rfl)
    · have hmem : op ∈ ss := by
        rcases List.mem_cons.1 hop with rfl | hmem
        · exact absurd rfl hs
        · exact hmem
      have hearlier : (s :: ss).takeWhile (· ≠ op) = s :: ss.takeWhile (· ≠ op) := by simp [hs]
      rw [hearlier] at h
      exact .orElse_right (.bind (rejects_sign (h s (by simp))))
        (ih hmem fun s' hs' => h s' (List.mem_cons_of_mem s hs'))

lemma rejects_operator {ss : List String} (h : ∀ s ∈ ss, ¬ s.toList <+: rest) :
    Rejects text (operator ss) rest := by
  induction ss with
  | nil => exact fun _ _ => rfl
  | cons s ss ih =>
    exact .orElse (.bind (rejects_sign (h s (by simp)))) (ih fun s' hs' => h s' (by simp [hs']))

lemma foldLeft_concat (first : Tree) (tails : List (String × Tree)) (op : String) (r : Tree) :
    foldLeft first (tails ++ [(op, r)]) =
      .binary op (foldLeft first tails) r (Builder.joined (foldLeft first tails) r) := by
  simp [foldLeft]

/-! ### Statements -/

def NoElse (text rest : List Char) : Prop := ∀ s, Rejects text (elseClause s) rest

section Choice

variable {x s : Rule Tree} {t : String}

lemma rejects_block (h : ¬ "\x7b".toList <+: rest) : Rejects text (block s) rest :=
  .bind (.located (.bind (rejects_sign h)))

lemma rejects_branch (h : word? "if" rest = none) : Rejects text (branch x s) rest :=
  .bind (.located (.bind (.bind (rejects_word h))))

lemma rejects_whileLoop (h : word? "while" rest = none) : Rejects text (whileLoop x s) rest :=
  .bind (.located (.bind (rejects_word h)))

lemma rejects_returnStatement (h : word? "return" rest = none) :
    Rejects text (returnStatement x) rest :=
  .bind (.located (.bind (rejects_word h)))

lemma rejects_declaration (h : typeName? rest = none) : Rejects text (declaration x) rest :=
  .bind (.located (.bind (rejects_textOf h)))

lemma rejects_assignment (h : name? rest = none) : Rejects text (assignment x) rest :=
  .bind (.located (.bind (rejects_textOf h)))

/-- Where no word and no opening brace stands, no statement does. -/
lemma rejects_statementOf (hbrace : ¬ "\x7b".toList <+: rest) (hword : WordEnd rest)
    (hname : name? rest = none) : Rejects text (statementOf x s) rest := by
  have hw {w : String} (hw : w.toList.all isWordChar) (hne : w ≠ "") : word? w rest = none :=
    word?_eq_none_of_wordEnd hw hne hword
  have htype : typeName? rest = none := by
    simpa using typeName?_eq_none (x := "") (by decide) (by decide) hword
  exact .orElse (rejects_block hbrace) (.orElse (rejects_branch (hw (by decide) (by decide)))
    (.orElse (rejects_whileLoop (hw (by decide) (by decide)))
    (.orElse (rejects_returnStatement (hw (by decide) (by decide)))
    (.orElse (rejects_declaration htype) (rejects_assignment hname)))))

/-- The text goes on with the word `t` and no longer word. -/
def Begins (t : String) (rest : List Char) : Prop :=
  t.toList.all isWordChar ∧ t.toList.head?.any isLetter ∧ ∃ r, rest = t.toList ++ r ∧ WordEnd r

lemma Begins.word?_eq_none {w : String} (h : Begins t rest) (hw : w.toList.all isWordChar)
    (hne : w ≠ t) : word? w rest = none := by
  obtain ⟨hall, -, r, rfl, hr⟩ := h
  exact word?_ne hw hall hr hne

lemma Begins.not_brace (h : Begins t rest) : ¬ "\x7b".toList <+: rest := by
  obtain ⟨-, hc, r, rfl, -⟩ := h
  cases ht : t.toList with
  | nil => simp [ht] at hc
  | cons c cs =>
    have hne : c ≠ '\x7b' := ne_of_isLetter (by simpa [ht] using hc) (by decide)
    simpa using hne.symm

variable {cs : List Char} {Q : Tree → Prop}

lemma takes_statementOf_branch (hb : Begins "if" (cs ++ rest))
    (h : Takes text (branch x s) cs rest Q) : Takes text (statementOf x s) cs rest Q :=
  .orElse_right (rejects_block hb.not_brace) (.orElse_left h)

lemma takes_statementOf_whileLoop (hb : Begins "while" (cs ++ rest))
    (h : Takes text (whileLoop x s) cs rest Q) : Takes text (statementOf x s) cs rest Q := by
  refine .orElse_right (rejects_block hb.not_brace) (.orElse_right (rejects_branch ?_)
    (.orElse_left h))
  exact hb.word?_eq_none (by decide) (by decide)

lemma takes_statementOf_returnStatement (hb : Begins "return" (cs ++ rest))
    (h : Takes text (returnStatement x) cs rest Q) : Takes text (statementOf x s) cs rest Q := by
  refine .orElse_right (rejects_block hb.not_brace) (.orElse_right (rejects_branch ?_)
    (.orElse_right (rejects_whileLoop ?_) (.orElse_left h)))
  · exact hb.word?_eq_none (by decide) (by decide)
  · exact hb.word?_eq_none (by decide) (by decide)

/-- A word that is not a keyword of statements begins a declaration or an assignment. -/
lemma takes_statementOf_of_word (hb : Begins t (cs ++ rest)) (ht : t ∉ ["if", "while", "return"])
    (h : Takes text (declaration x <|> assignment x) cs rest Q) :
    Takes text (statementOf x s) cs rest Q := by
  have hne : ∀ w ∈ ["if", "while", "return"], w ≠ t := by
    rintro w hw rfl
    exact ht hw
  refine .orElse_right (rejects_block hb.not_brace) (.orElse_right (rejects_branch ?_)
    (.orElse_right (rejects_whileLoop ?_) (.orElse_right (rejects_returnStatement ?_) h)))
  · exact hb.word?_eq_none (by decide) (hne _ (by simp))
  · exact hb.word?_eq_none (by decide) (hne _ (by simp))
  · exact hb.word?_eq_none (by decide) (hne _ (by simp))

lemma takes_statementOf_declaration (ht : t ∈ typeNames) (hb : Begins t (cs ++ rest))
    (h : Takes text (declaration x) cs rest Q) : Takes text (statementOf x s) cs rest Q := by
  have hne : ∀ w ∈ typeNames, w ∉ ["if", "while", "return"] := by decide
  exact takes_statementOf_of_word hb (hne t ht) (.orElse_left h)

lemma takes_statementOf_assignment (ht : Node.IsName t) (hb : Begins t (cs ++ rest))
    (h : Takes text (assignment x) cs rest Q) : Takes text (statementOf x s) cs rest Q := by
  have hkey : ∀ w ∈ ["if", "while", "return"], w ∈ keywords := by decide
  have htype : typeName? (cs ++ rest) = none := by
    obtain ⟨hall, -, r, hr, hend⟩ := hb
    rw [hr]
    exact typeName?_eq_none hall (fun h => ht.1 (List.mem_append_left _ h)) hend
  exact takes_statementOf_of_word hb (fun h => ht.1 (hkey t h))
    (.orElse_right (rejects_declaration htype) h)

end Choice

/-! ### Where nothing stands -/

lemma solid_semicolon : Solid (";".toList ++ rest) := solid_cons (by decide) (by decide)

lemma rejects_expression {depth : ℕ} : Rejects text (expression (depth + 1)) (';' :: rest) := by
  have hbool : boolean? (';' :: rest) = none := by
    simpa using boolean?_eq_none (x := "") (by decide) (by decide)
      (wordEnd_cons (c := ';') (r := rest) (by decide))
  have hprimary : Rejects text (primary (expression depth)) (';' :: rest) := by
    refine .orElse (rejects_paren (by decide)) (.orElse (rejects_leaf ?_)
      (.orElse (rejects_leaf ?_) (.orElse (rejects_leaf rfl) (.orElse (rejects_leaf hbool)
      (rejects_leaf ?_)))))
    · exact float?_eq_none (by decide) (by decide) (by decide) rest
    · exact integer?_eq_none (by decide) (by decide) rest
    · exact name?_eq_none (by decide) rest
  exact .bind (.bind (.bind hprimary))

lemma rejects_statement_close {depth : ℕ} :
    Rejects text (statement (depth + 1)) ('\x7d' :: rest) :=
  rejects_statementOf (by simp) (wordEnd_cons (by decide)) (name?_eq_none (by decide) rest)

lemma rejects_statement_nil {depth : ℕ} : Rejects text (statement (depth + 1)) [] :=
  rejects_statementOf (by simp) wordEnd_nil rfl

end Primer.Grammar
