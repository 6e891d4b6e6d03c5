import Mathlib.Tactic
import Primer.Proofs.RuleChoice

/-!
The spellings of a tree as a row of tokens.

A tree says nothing about parentheses. They must stand around an operand whose operator is of a
looser level than its place allows, and they may stand around every expression. So a tree has many
spellings, and `SpelledExpr` and `Spelled` relate it to all of them. A text separates the tokens by
single blanks.
-/

namespace Primer

/-- How a literal is written. A floating-point number has no spelling here. -/
def Literal.spelling? : Literal → Option String
  | .int n => some (toString n)
  | .float _ => none
  | .text s => some (String.ofList ('"' :: (Lexeme.escape s.toList ++ ['"'])))
  | .bool b => some (toString b)

/-- A literal with a spelling that is not too long to be read. -/
def Literal.Writable : Literal → Prop
  | .int n => (toString n.natAbs).length ≤ Reading.maxDigits
  | .float _ => False
  | .text _ => True
  | .bool _ => True

namespace Grammar

/-- The tokens of an expression that may stand where operators of level `k` or a tighter one are
taken, with at most `q` parentheses inside one another. -/
inductive SpelledExpr : (q k : ℕ) → Tree → List String → Prop
  | literal {q k : ℕ} {v : Literal} {loc : Option Span} {s : String} (h : v.spelling? = some s) :
    SpelledExpr q k (.literal v loc) [s]
  | name {q k : ℕ} {x : String} {loc : Option Span} : SpelledExpr q k (.name x loc) [x]
  | binary {q k j : ℕ} {op : String} {l r : Tree} {loc : Option Span} {ts us : List String}
    (hop : op ∈ signs j) (hkj : k ≤ j) (hl : SpelledExpr q j l ts)
    (hr : SpelledExpr q (j + 1) r us) : SpelledExpr q k (.binary op l r loc) (ts ++ op :: us)
  | paren {q k : ℕ} {e : Tree} {ts : List String} (h : SpelledExpr q 0 e ts) :
    SpelledExpr (q + 1) k e ("(" :: (ts ++ [")"]))

/-- The tokens of a statement or a program, with at most `q` parentheses inside one another in an
expression. -/
inductive Spelled (q : ℕ) : Tree → List String → Prop
  | declare {t x : String} {loc : Option Span} : Spelled q (.declare t x none loc) [t, x, ";"]
  | declareAs {t x : String} {v : Tree} {loc : Option Span} {ts : List String}
    (hv : SpelledExpr q 0 v ts) :
    Spelled q (.declare t x (some v) loc) (t :: x :: "=" :: (ts ++ [";"]))
  | assign {x : String} {v : Tree} {loc : Option Span} {ts : List String}
    (hv : SpelledExpr q 0 v ts) : Spelled q (.assign x v loc) (x :: "=" :: (ts ++ [";"]))
  | branch {c b : Tree} {loc : Option Span} {ts us : List String} (hc : SpelledExpr q 0 c ts)
    (hb : Spelled q b us) :
    Spelled q (.branch c b none loc) ("if" :: "(" :: (ts ++ ")" :: us))
  | branchElse {c b e : Tree} {loc : Option Span} {ts us vs : List String}
    (hc : SpelledExpr q 0 c ts) (hb : Spelled q b us) (he : Spelled q e vs) :
    Spelled q (.branch c b (some e) loc) ("if" :: "(" :: (ts ++ ")" :: (us ++ "else" :: vs)))
  | whileLoop {c b : Tree} {loc : Option Span} {ts us : List String} (hc : SpelledExpr q 0 c ts)
    (hb : Spelled q b us) :
    Spelled q (.whileLoop c b loc) ("while" :: "(" :: (ts ++ ")" :: us))
  | ret {loc : Option Span} : Spelled q (.ret none loc) ["return", ";"]
  | retValue {v : Tree} {loc : Option Span} {ts : List String} (hv : SpelledExpr q 0 v ts) :
    Spelled q (.ret (some v) loc) ("return" :: (ts ++ [";"]))
  | block {pieces : List (Tree × List String)} {loc : Option Span}
    (h : ∀ n ∈ pieces, Spelled q n.1 n.2) : Spelled q (.block (pieces.map Prod.fst) loc)
      ("\x7b" :: (pieces.flatMap Prod.snd ++ ["\x7d"]))
  | program {pieces : List (Tree × List String)} {loc : Option Span}
    (h : ∀ n ∈ pieces, Spelled q n.1 n.2) :
    Spelled q (.program (pieces.map Prod.fst) loc) (pieces.flatMap Prod.snd)

/-! ### Tokens as text -/

def spaced (ts : List String) : List Char := ts.flatMap fun t => ' ' :: t.toList

def row : List String → List Char
  | [] => []
  | t :: ts => t.toList ++ spaced ts

lemma toList_intercalate (ts : List String) : (" ".intercalate ts).toList = row ts := by
  cases ts with
  | nil => rfl
  | cons t ts =>
    induction ts generalizing t with
    | nil => simp [row, spaced]
    | cons u ts ih => simp [row, spaced, String.intercalate_cons_cons, ih u]

@[simp] lemma spaced_nil : spaced [] = [] := rfl

@[simp] lemma spaced_cons (t : String) (ts : List String) :
    spaced (t :: ts) = ' ' :: (t.toList ++ spaced ts) := rfl

@[simp] lemma spaced_append (ts us : List String) : spaced (ts ++ us) = spaced ts ++ spaced us :=
  List.flatMap_append

@[simp] lemma row_cons (t : String) (ts : List String) : row (t :: ts) = t.toList ++ spaced ts :=
  rfl

variable {q k : ℕ} {n e : Tree} {ts us : List String}

lemma spaced_eq_cons_row (h : ts ≠ []) : spaced ts = ' ' :: row ts := by
  cases ts with
  | nil => exact absurd rfl h
  | cons t ts => rfl

lemma row_append (h : ts ≠ []) : row (ts ++ us) = row ts ++ spaced us := by
  cases ts with
  | nil => exact absurd rfl h
  | cons t ts => simp

lemma SpelledExpr.ne_nil (h : SpelledExpr q k e ts) : ts ≠ [] := by
  cases h <;> simp

lemma Spelled.ne_nil {ok : Literal → Prop} (h : Spelled q n ts) (hn : n.IsStatement ok) :
    ts ≠ [] := by
  cases h with
  | program => exact absurd hn id
  | _ => simp

end Grammar

end Primer
