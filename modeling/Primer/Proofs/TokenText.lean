import Mathlib.Data.Nat.Digits.Defs
import Mathlib.Tactic
import Primer.Proofs.Locations
import Primer.Proofs.SpelledShapes
import Primer.View.Token

/-!
The tokens of a program, read as a text again.

The view of a program as tokens shows each construct with its words but drops what the tree does not
keep: parentheses, the escapes of a text, the digits of a floating-point number. Where a program has
no need of these, its tokens with blanks between them are a text of the same program. No `else` gets
another branch that way, because a tree that was read has none behind a body that could take it.
-/

namespace Primer

namespace Token

@[simp] lemma value_keyword (w : String) : (keyword w).value = w := rfl

@[simp] lemma value_identifier (x : String) : (identifier x).value = x := rfl

@[simp] lemma value_separator (s : String) : (separator s).value = s := rfl

@[simp] lemma value_operator (s : String) : (operator s).value = s := rfl

end Token

namespace Grammar

def levelOf (op : String) : ℕ :=
  if op ∈ comparisonSigns then 0 else if op ∈ additiveSigns then 1 else 2

lemma mem_signs_levelOf {op : String}
    (h : op ∈ comparisonSigns ++ additiveSigns ++ multiplicativeSigns) :
    op ∈ signs (levelOf op) := by
  have hall : ∀ op ∈ comparisonSigns ++ additiveSigns ++ multiplicativeSigns,
      op ∈ signs (levelOf op) := by decide
  exact hall op h

end Grammar

namespace Node

open Grammar Lexeme

variable {ok : Literal → Prop} {n e : Tree} {k : ℕ}

/-- Whether an operand needs no parentheses where operators of level `k` or a tighter one are
taken. -/
def binds (k : ℕ) : Tree → Bool
  | .binary op _ _ _ => k ≤ levelOf op
  | _ => true

/-- Whether the tokens of a node are its source: it is no floating-point number, no text with a
character that has to be escaped, and no operation on an operand that has to be in parentheses. -/
def isPlain : Tree → Bool
  | .literal (.float _) _ => false
  | .literal (.text s) _ => s.toList.all (· ∉ ['"', '\\', '\n'])
  | .binary op l r _ => l.binds (levelOf op) && r.binds (levelOf op + 1)
  | _ => true

def words (n : Tree) : List String := n.tokens.map Token.value

/-! ### Spellings -/

lemma escape_eq_self {cs : List Char} (h : ∀ c ∈ cs, c ∉ ['"', '\\', '\n']) : escape cs = cs := by
  induction cs with
  | nil => rfl
  | cons c cs ih =>
    rw [List.forall_mem_cons] at h
    simp only [List.mem_cons, List.not_mem_nil, or_false, not_or] at h
    obtain ⟨⟨hquote, hslash, hline⟩, hcs⟩ := h
    rw [escape, if_neg hquote, if_neg hslash, if_neg hline, ih (by simpa using hcs)]

/-- A plain literal is shown as it is written. -/
lemma spelling?_eq_shown {v : Literal} {loc : Option Span}
    (h : (Node.literal v loc : Tree).isPlain) : v.spelling? = some v.shown := by
  cases v with
  | int v => rfl
  | float x => cases h
  | text s =>
    have hescape : escape s.toList = s.toList := escape_eq_self (by simpa [isPlain] using h)
    rw [Literal.spelling?, hescape, Literal.shown]
    congr 1
    apply String.toList_inj.1
    simp
  | bool b => cases b <;> rfl

lemma spelledExpr_words (h : e.IsExpression ok) (hplain : ∀ m ∈ e.walk, m.isPlain)
    (hk : e.binds k) : SpelledExpr 0 k e e.words := by
  induction e using Node.induction generalizing k with
  | literal v loc => exact .literal (spelling?_eq_shown (self_of_forall_walk hplain))
  | name x loc => exact .name
  | binary op l r loc hl hr =>
    obtain ⟨hop, hle, hre⟩ := h
    have hself := self_of_forall_walk hplain
    simp only [isPlain, Bool.and_eq_true] at hself
    have hwords : (Node.binary op l r loc).words = l.words ++ op :: r.words := by
      simp [words, tokens]
    rw [hwords]
    exact .binary (mem_signs_levelOf hop) (by simpa [binds] using hk)
      (hl hle (forall_walk_child hplain (by simp [children])) hself.1)
      (hr hre (forall_walk_child hplain (by simp [children])) hself.2)
  | _ => exact h.elim

lemma map_tokensAll (ns : List Tree) : (tokensAll ns).map Token.value = ns.flatMap words := by
  induction ns with
  | nil => rfl
  | cons n ns ih => rw [tokensAll, List.map_append, ih, List.flatMap_cons, words]

lemma words_block (ns : List Tree) (loc : Option Span) :
    (Node.block ns loc).words = "\x7b" :: (ns.flatMap words ++ ["\x7d"]) := by
  simp [words, tokens, map_tokensAll]

lemma words_program (ns : List Tree) (loc : Option Span) :
    (Node.program ns loc).words = inMain (ns.flatMap words) := by
  simp [words, tokens, map_tokensAll, inMain]

lemma binds_zero (e : Tree) : e.binds 0 := by
  cases e <;> simp [binds]

/-- **Tokens**: the tokens of a plain statement spell it without any parentheses in its
expressions. -/
theorem spelled_words (h : n.IsStatement ok) (hplain : ∀ m ∈ n.walk, m.isPlain) :
    Spelled 0 n n.words := by
  have hexpr : ∀ {n e : Tree}, (∀ m ∈ n.walk, m.isPlain) → e ∈ n.children → e.IsExpression ok →
      SpelledExpr 0 0 e e.words :=
    fun hplain he h => spelledExpr_words h (forall_walk_child hplain he) (binds_zero _)
  induction n using Node.induction with
  | declare t x v loc _ =>
    cases v with
    | none => exact .declare
    | some v =>
      have hv := hexpr hplain (by simp [children]) h.2.2
      simpa [words, tokens] using Spelled.declareAs hv
  | assign x v loc _ =>
    have hv := hexpr hplain (by simp [children]) h.2
    simpa [words, tokens] using Spelled.assign hv
  | branch c b e loc _ hb he =>
    have hc := hexpr (e := c) hplain (by simp [children])
    have hb := fun h => hb h (forall_walk_child hplain (by simp [children]))
    cases e with
    | none => simpa [words, tokens] using Spelled.branch (hc h.1) (hb h.2)
    | some e =>
      have he := he e rfl h.2.2.2 (forall_walk_child hplain (by simp [children]))
      simpa [words, tokens] using Spelled.branchElse (hc h.1) (hb h.2.1) he
  | whileLoop c b loc _ hb =>
    have hc := hexpr (e := c) hplain (by simp [children]) h.1
    have hb := hb h.2 (forall_walk_child hplain (by simp [children]))
    simpa [words, tokens] using Spelled.whileLoop hc hb
  | ret v loc _ =>
    cases v with
    | none => exact .ret
    | some v =>
      have hv := hexpr hplain (by simp [children]) h
      simpa [words, tokens] using Spelled.retValue hv
  | block ns loc ih =>
    have hns : ∀ p ∈ ns.map (fun n => (n, n.words)), Spelled 0 p.1 p.2 := by
      rw [List.forall_mem_map]
      exact fun n hn => ih n hn (isStatements_iff.1 h n hn) (forall_walk_child hplain hn)
    rw [words_block]
    simpa [List.flatMap_map, Function.comp_def] using Spelled.block hns
  | _ => exact h.elim

end Node

namespace Grammar

open Rule Lexeme Text

variable {d depth : ℕ} {p : Position} {us : List Char} {t n : Tree} {source : String}

/-! ### Whole numbers -/

lemma digitsValue_lt (ds : List Char) : digitsValue ds < 10 ^ ds.length := by
  induction ds using List.reverseRecOn with
  | nil => simp [digitsValue]
  | append_singleton ds c ih =>
    rw [List.length_append, List.length_singleton, pow_succ]
    cases hc : digitValue? c with
    | none =>
      have hvalue : digitsValue (ds ++ [c]) = digitsValue ds := by simp [digitsValue, hc]
      omega
    | some d =>
      have hd := digitValue?_lt hc
      rw [digitsValue_append_singleton ds hc]
      omega

/-- A number is shown with no more digits than it was written with. -/
lemma length_toString_le {ds : List Char} (h : IsDigits ds) :
    (toString (digitsValue ds)).length ≤ ds.length :=
  Nat.repr_length _ _ (List.length_pos_iff.2 h.1) (digitsValue_lt ds)

/-- A literal of a tree that was read can be written, but for floating-point numbers. -/
lemma writable_of_mem_walk {m : Tree} (h : parse depth source = .ok t) (hm : m ∈ t.walk)
    (hself : m.isPlain) : m.LiteralIs Literal.Writable := by
  obtain ⟨-, -, -, hlong, -⟩ := parse_eq_ok.1 h
  obtain ⟨ns, rfl, hparts⟩ := parts_of_parse h
  rintro v loc rfl
  have hfits := hlong _ hm
  rw [Node.walk_eq, List.mem_cons, List.mem_flatMap] at hm
  rcases hm with hprogram | ⟨n, hn, hm⟩
  · cases hprogram
  obtain ⟨a, w, b, htext, hseated⟩ := hparts.placed n hn _ hm
  obtain rfl : loc = some (.over (Position.initial.advance a) w) := hseated.location
  cases v with
  | int v =>
    have hform : (Literal.int v).Form w := hseated.leaf
    have hslice : slice source.toList (.over (Position.initial.advance a) w) = w := by
      rw [htext, slice_over]
    cases hform with
    | @int minus ds hds =>
      have hlen := length_le_of_longInteger? hfits hslice hds
        (by simp [Span.over, Position.offset_advance])
      have habs : (signed minus (digitsValue ds)).natAbs = digitsValue ds := by
        cases minus <;> simp [signed]
      rw [Literal.Writable, habs]
      exact (length_toString_le hds).trans hlen
  | float x => cases hself
  | text s => trivial
  | bool b => trivial

lemma writable_of_parse (h : parse depth source = .ok t) (hplain : ∀ m ∈ t.walk, m.isPlain) :
    ∀ m ∈ t.walk, m.LiteralIs Literal.Writable :=
  fun m hm => writable_of_mem_walk h hm (hplain m hm)

/-! ### Programs -/

lemma levelsAll_le_of_row {S : Shape} {ns : List Tree} (hd : 0 < d)
    (hS : ∀ {p us n}, S p us n → n.levels ≤ d) (h : RowAt S p us ns) : Node.levelsAll ns ≤ d := by
  induction h with
  | nil => exact hd
  | cons hg hn _ ih => exact max_le (hS hn) ih

/-- A statement takes no fewer levels in any text of it than it takes without parentheses. -/
lemma levels_le_of_stmtAt (h : StmtAt d p us n) : n.levels ≤ d := by
  have hexpr {d : ℕ} {p : Position} {us : List Char} {e : Tree} (h : ExprAt d p us e) :
      2 ≤ d + 1 := by
    cases d with
    | zero => exact h.elim
    | succ d => omega
  induction d generalizing p us n with
  | zero => exact h.elim
  | succ d ih =>
    have hguard {w : String} {p : Position} {us : List Char} {e b : Tree}
        (h : GuardAt w (ExprAt d) (StmtAt d) p us e b) : b.levels ≤ d := by
      cases h with
      | mk _ _ _ _ _ hb => exact ih hb
    cases h with
    | declare => exact Nat.succ_pos d
    | declareAs _ _ _ _ _ _ _ hv => exact hexpr hv
    | assign _ _ _ _ hv => exact hexpr hv
    | branch h => exact Nat.succ_le_succ (hguard h)
    | branchElse h _ _ _ _ ho => exact Nat.succ_le_succ (max_le (hguard h) (ih ho))
    | whileLoop h => exact Nat.succ_le_succ (hguard h)
    | ret hd => exact Nat.succ_le_succ hd
    | retValue _ _ hv => exact hexpr hv
    | block hd h =>
      cases h with
      | mk h => exact Nat.succ_le_succ (levelsAll_le_of_row hd ih h)

/-- The statements of a program that was read take no more levels than there were. -/
lemma levels_le_of_parse {ns : List Tree} {loc : Option Span}
    (h : parse depth source = .ok (.program ns loc)) (hn : n ∈ ns) : n.levels ≤ depth + 1 := by
  obtain ⟨ns, hns, hparts⟩ := parts_of_parse h
  obtain ⟨rfl, -⟩ := Node.program.inj hns
  obtain ⟨a, w, b, -, hseated⟩ := hparts.placed n hn n (by rw [Node.walk_eq]; simp)
  have hkind : n.isStatementOrBlock := by
    have hstatement := Node.isStatements_iff.1 (isProgram_of_parse h) n hn
    cases n with
    | literal | name | binary | forLoop | program => exact hstatement.elim
    | _ => rfl
  obtain ⟨d, hd, hshape⟩ := hseated.shape hkind
  exact (levels_le_of_stmtAt hshape).trans hd

/-- A main function is written with its tokens around those of the statements. -/
lemma shapedRow_main {S : Shape} {pieces : List (Tree × List String)} (h : ShapedPieces S pieces) :
    ShapedRow (MainAt S) (row (inMain (pieces.flatMap Prod.snd))) (pieces.map Prod.fst) := by
  intro before after
  have hrow : row (inMain (pieces.flatMap Prod.snd)) = "int".toList ++ ([' '] ++
      ("main".toList ++ ([' '] ++ ("(".toList ++ ([' '] ++ (")".toList ++ ([' '] ++
        row ("\x7b" :: (pieces.flatMap Prod.snd ++ ["\x7d"]))))))))) := by
    simp [inMain]
  obtain ⟨ns, hbraced, hlikes⟩ := shapedRow_braced h (before ++ ("int".toList ++ ([' '] ++
    ("main".toList ++ ([' '] ++ ("(".toList ++ ([' '] ++ (")".toList ++ [' ']))))))) ) after
  rw [Position.advance_append] at hbraced
  rw [hrow]
  exact ⟨ns, .mk layout_blank (by simp) layout_blank layout_blank layout_blank hbraced,
    by simpa using hlikes⟩

/-- **The token view is source**: the tokens of a program that was read, with a blank between every
two of them, are read as the same program up to places. The program must have no floating-point
number, no text with a character that is escaped, and no operand that needs its parentheses. -/
theorem parse_tokens (h : parse depth source = .ok t) (hplain : ∀ m ∈ t.walk, m.isPlain) :
    ∃ t', parse depth (" ".intercalate (t.tokens.map Token.value)) = .ok t' ∧ t'.bare = t.bare := by
  have hsorted := isProgram_of_parse h
  have hwritable := writable_of_parse h hplain
  obtain ⟨-, -, -, -, hhigh⟩ := parse_eq_ok.1 h
  obtain ⟨ns, rfl, -⟩ := parts_of_parse h
  have hstatement := Node.isStatements_iff.1 hsorted
  -- each statement with its tokens
  have hpieces : ShapedPieces (StmtAt (depth + 1)) (ns.map fun n => (n, n.words)) := by
    intro p hp
    obtain ⟨n, hn, rfl⟩ := List.mem_map.1 hp
    have hspelled := Node.spelled_words (hstatement n hn) (Node.forall_walk_child hplain hn)
    refine ⟨hspelled.ne_nil (hstatement n hn), shaped_of_spelled hspelled ?_ ?_⟩
    · exact (hstatement n hn).imp (Node.forall_walk_child hwritable hn)
    · simpa using levels_le_of_parse h hn
  have hbody := shapedRow_main hpieces
  have hfst : (ns.map fun n => (n, n.words)).map Prod.fst = ns := by simp [Function.comp_def]
  rw [hfst, List.flatMap_map,
    ← Node.words_program ns (some (.over .initial source.toList))] at hbody
  generalize hp : Node.program ns (some (.over .initial source.toList)) = p at hhigh hbody ⊢
  have hsolid : Solid (row p.words) := by
    rw [← hp, Node.words_program]
    exact solid_cons (by decide) (by decide)
  obtain ⟨t', haccept, hlike⟩ := exists_program_of_shapedRow
    (some (.over .initial source.toList)) depth.succ_pos
    (fun before after => (hbody before after).imp fun _ h => h.imp_left Or.inl) hsolid
  rw [hp] at hlike
  rw [← Node.words, parse_of_accept (toList_intercalate _) haccept]
  rcases accepted_of_like hlike with ⟨hok, -⟩ | ⟨location, -, hover⟩
  · exact ⟨t', hok, hlike.bare_eq⟩
  · omega

def chained : String :=
  "string s = \"it's\"; int n; if (n - -1 == 007 * n + 1) return; else if (true) " ++
    "\x7b n = (n / 2) - 1; \x7d else while (n < 3) n = s; // last"

def chainedTokens : String :=
  "int main ( ) \x7b string s = \"it's\" ; int n ; if ( n - -1 == 7 * n + 1 ) return ; else " ++
    "if ( true ) \x7b n = n / 2 - 1 ; \x7d else while ( n < 3 ) n = s ; \x7d"

theorem parse_tokens_chained : ∃ t, parse 5 chained = .ok t ∧ (∀ m ∈ t.walk, m.isPlain) ∧
    " ".intercalate (t.tokens.map Token.value) = chainedTokens ∧
    ∃ t', parse 5 (" ".intercalate (t.tokens.map Token.value)) = .ok t' ∧ t'.bare = t.bare := by
  have hread : (parse 5 chained).map (fun t =>
      (t.walk.all Node.isPlain, " ".intercalate (t.tokens.map Token.value))) =
      .ok (true, chainedTokens) := by
    decide +kernel
  obtain ⟨t, hp, hview⟩ := exists_of_map_parse hread
  obtain ⟨hplain, htokens⟩ := Prod.mk.inj hview
  rw [List.all_eq_true] at hplain
  exact ⟨t, hp, hplain, htokens, parse_tokens hp hplain⟩

end Grammar

end Primer
