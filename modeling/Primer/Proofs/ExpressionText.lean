import Mathlib.Tactic
import Primer.Proofs.FlatPrograms
import Primer.Proofs.SExprText
import Primer.Proofs.StatementText
import Primer.Proofs.TokenText
import Primer.Proofs.Unplaced
import Primer.View.Explain

/-!
The text of an expression, read as source.

The text in an explanation has no parentheses. It is read as the expression that it explains exactly
if no operand of this expression needs any. In one direction the text has the shape of the
expression, level by level. In the other direction parentheses are counted: what is read from a text
with no more of them than the text of the tree itself was read without any.
-/

namespace Primer

namespace Node

open Grammar Lexeme

variable {ok : Literal → Prop} {e l m n r : Tree} {op : String} {k : ℕ}

/-- Whether an operand of the node has to stand in parentheses. -/
def needsParens : Tree → Bool
  | .binary op l r _ => !(l.binds (levelOf op) && r.binds (levelOf op + 1))
  | _ => false

lemma needsParens_binary {loc : Option Span} : (binary op l r loc).needsParens = false ↔
    l.binds (levelOf op) ∧ r.binds (levelOf op + 1) := by
  simp [needsParens]

lemma binds_of_le {j : ℕ} (hjk : j ≤ k) (h : e.binds k) : e.binds j := by
  cases e with
  | binary op l r loc =>
    simp only [binds, decide_eq_true_eq] at h ⊢
    omega
  | _ => rfl

lemma toList_expressionText_binary (op : String) (l r : Tree) (loc : Option Span) :
    (binary op l r loc).expressionText.toList = l.expressionText.toList ++
      ([' '] ++ (op.toList ++ ([' '] ++ r.expressionText.toList))) := by
  simp [expressionText]

/-! ### Texts and places -/

lemma expressionText_bare (e : Tree) : e.bare.expressionText = e.expressionText := by
  induction e using Node.induction with
  | binary op l r loc hl hr => rw [bare, expressionText, expressionText, hl, hr]
  | declare t x v => cases v <;> rfl
  | branch c b e => cases e <;> rfl
  | ret v => cases v <;> rfl
  | _ => rfl

lemma binds_bare (e : Tree) : e.bare.binds k = e.binds k := by
  cases e <;> simp only [bare, bare_declare, bare_branch, bare_ret, binds]

lemma needsParens_bare (e : Tree) : e.bare.needsParens = e.needsParens := by
  cases e <;> simp only [bare, bare_declare, bare_branch, bare_ret, needsParens, binds_bare]

lemma kind_bare (e : Tree) : e.bare.kind = e.kind := by
  cases e with
  | literal w => cases w <;> rfl
  | _ => simp only [bare, bare_declare, bare_branch, bare_ret, kind]

lemma forall_walk_bare {P : Tree → Prop} (hP : ∀ m, P m.bare ↔ P m) (n : Tree) :
    (∀ m ∈ n.bare.walk, P m) ↔ ∀ m ∈ n.walk, P m := by
  rw [walk_bare, List.forall_mem_map]
  exact forall₂_congr fun m _ => hP m

/-! ### Expressions in programs -/

lemma IsExpression.walk (h : e.IsExpression ok) : ∀ m ∈ e.walk, m.IsExpression ok := by
  induction e using Node.induction with
  | literal v loc | name x loc => simpa [Node.walk] using h
  | binary op l r loc hl hr =>
    simp only [Node.walk, List.mem_cons, List.mem_append]
    rintro m (rfl | hm | hm)
    · exact h
    · exact hl h.2.1 m hm
    · exact hr h.2.2 m hm
  | _ => exact h.elim

lemma IsStatement.operands (h : n.IsStatement ok) : ∀ e ∈ n.operands, e.IsExpression ok := by
  cases n with
  | declare t x v => cases v <;> simp_all [Node.operands, IsStatement]
  | assign x v => simpa [Node.operands] using h.2
  | branch c b e =>
    cases e with
    | none => simpa [Node.operands] using h.1
    | some e => simpa [Node.operands] using h.1
  | whileLoop c b => simpa [Node.operands] using h.1
  | ret v => cases v <;> simp_all [Node.operands, IsStatement]
  | block ns => simp [Node.operands]
  | _ => exact h.elim

/-- The expressions in a statement are expressions of the language, on lower levels. -/
lemma IsStatement.expression (h : n.IsStatement ok) (hm : m ∈ n.walk) (he : m.isExpression) :
    m.IsExpression ok ∧ m.height < n.height := by
  induction n using childInduction with
  | step n ih =>
    rw [walk_eq, List.mem_cons, List.mem_flatMap] at hm
    rcases hm with rfl | ⟨c, hc, hm⟩
    · rw [h.isExpression] at he
      cases he
    · have hlt := height_lt_of_mem_children hc
      have hmem := hc
      rw [children_eq, List.mem_append] at hmem
      rcases hmem with hoperand | hinner
      · exact ⟨(h.operands c hoperand).walk m hm, (height_le_of_mem_walk hm).trans_lt hlt⟩
      · obtain ⟨hsorted, hheight⟩ := ih c hc (h.inner c hinner) hm
        exact ⟨hsorted, hheight.trans hlt⟩

lemma IsProgram.expression (h : n.IsProgram ok) (hm : m ∈ n.walk) (he : m.isExpression) :
    m.IsExpression ok ∧ m.height + 2 ≤ n.height := by
  cases n with
  | program ns loc =>
    rw [walk_eq, List.mem_cons, List.mem_flatMap] at hm
    rcases hm with rfl | ⟨s, hs, hm⟩
    · cases he
    · have hlt := height_lt_of_mem_children hs
      obtain ⟨hsorted, hheight⟩ := (isStatements_iff.1 h s hs).expression hm he
      exact ⟨hsorted, by omega⟩
  | _ => exact h.elim

/-- The text of an expression is its words with a blank between every two of them. -/
lemma row_words (h : e.IsExpression ok) : e.words ≠ [] ∧ row e.words = e.expressionText.toList := by
  induction e using Node.induction with
  | literal v loc | name x loc => exact ⟨by simp [words, tokens], List.append_nil _⟩
  | binary op l r loc hl hr =>
    obtain ⟨hlne, hl⟩ := hl h.2.1
    obtain ⟨hrne, hr⟩ := hr h.2.2
    have hwords : (Node.binary op l r loc).words = l.words ++ op :: r.words := by
      simp [words, tokens]
    rw [hwords, row_append hlne, toList_expressionText_binary, hl, spaced_cons,
      spaced_eq_cons_row hrne, hr]
    simp
  | _ => exact h.elim

/-- A statement with an expression in it takes a level for the expression. -/
lemma two_le_levels (hm : m ∈ n.walk) (he : m.isExpression) (h : n.IsStatement ok) :
    2 ≤ n.levels := by
  cases n with
  | declare t x v =>
    cases v with
    | none =>
      obtain rfl : m = _ := by simpa [Node.walk] using hm
      cases he
    | some v => exact le_rfl
  | branch c b e =>
    have hpos := b.levels_pos
    cases e <;> rw [levels] <;> omega
  | whileLoop c b => exact Nat.succ_le_succ b.levels_pos
  | block ns => exact Nat.succ_le_succ (levelsAll_le_iff.1 le_rfl).1
  | _ => exact le_rfl

end Node

namespace Grammar

open Rule Lexeme Text

variable {d k depth : ℕ} {p : Position} {us : List Char} {e v : Tree}

/-! ### Counting parentheses -/

lemma count_quoted {cs vs : List Char} (h : QuotedForm cs vs) : vs.count '(' ≤ cs.count '(' := by
  have hmeaning : ∀ c, escapeMeaning c = '(' → c = '(' := by
    intro c hc
    unfold escapeMeaning at hc
    split at hc <;> simp_all
  induction h with
  | nil => exact le_rfl
  | plain _ _ _ _ ih => simpa [List.count_cons] using ih
  | @escaped c cs vs _ _ ih =>
    by_cases hc : escapeMeaning c = '('
    · obtain rfl := hmeaning c hc
      simpa [List.count_cons, hc] using ih
    · simp only [List.count_cons, beq_iff_eq, hc, if_false]
      omega

lemma count_shown_le {w : Literal} {cs : List Char} (h : w.Form cs) (hw : w.IsExact) :
    w.shown.toList.count '(' ≤ cs.count '(' := by
  cases h with
  | @int minus ds hds =>
    refine (List.count_eq_zero.2 fun hmem => ?_).trans_le (Nat.zero_le _)
    exact absurd (SExpr.goesOn_of_mem_toString hmem) (by decide)
  | float minus hcs => exact absurd rfl (hw _)
  | text hcs => simpa [Literal.shown, List.count_cons] using count_quoted hcs
  | bool b => cases b <;> decide

lemma levelOf_of_mem_signs {op : String} (h : op ∈ signs k) : levelOf op = k := by
  have hall : ∀ j < 3, ∀ op ∈ signs j, levelOf op = j := by decide
  exact hall k (lt_of_mem_signs h) op h

lemma count_of_mem_signs {op : String} (h : op ∈ signs k) : op.toList.count '(' = 0 := by
  have hall : ∀ j < 3, ∀ op ∈ signs j, op.toList.count '(' = 0 := by decide
  exact hall k (lt_of_mem_signs h) op h

/-- A text of the tree has all the parentheses of the text that is shown for it. If it has no other
ones, none are needed where operators of level `k` or a tighter one are taken. -/
structure Counted (k : ℕ) (us : List Char) (e : Tree) : Prop where
  count_le : e.expressionText.toList.count '(' ≤ us.count '('
  ungrouped : us.count '(' = e.expressionText.toList.count '(' →
    e.binds k ∧ ∀ m ∈ e.walk, m.needsParens = false

/-- The texts of a shape are counted so, where their trees have no floating-point number. -/
def CountsAt (k : ℕ) (X : Shape) : Prop :=
  ∀ ⦃p us e⦄, X p us e → (∀ m ∈ e.walk, m.kind ≠ "Float") → Counted k us e

lemma countsAt_operand {X : Shape} (hX : CountsAt 0 X) : CountsAt k (OperandAt X) := by
  intro p us e h hfloat
  cases h with
  | @literal w cs h =>
    have hexact : w.IsExact := by
      rintro x rfl
      exact Node.self_of_forall_walk hfloat rfl
    exact ⟨count_shown_le h hexact, fun _ => ⟨rfl, by simp [Node.walk, Node.needsParens]⟩⟩
  | name h => exact ⟨le_rfl, fun _ => ⟨rfl, by simp [Node.walk, Node.needsParens]⟩⟩
  | @paren g us k e hg he hk =>
    have hle := (hX he hfloat).count_le
    have hcount : us.count '(' < ("(".toList ++ (g ++ (us ++ (k ++ ")".toList)))).count '(' := by
      simp only [List.count_append]
      have hone : "(".toList.count '(' = 1 := rfl
      omega
    -- parentheses around an operand are not in the text that is shown, so one is left over
    exact ⟨by omega, fun heq => by omega⟩

lemma countsAt_level {X : Shape} (hX : CountsAt (k + 1) X) : CountsAt k (LevelAt (signs k) X) := by
  intro p us e h hfloat
  induction h with
  | first h =>
    obtain ⟨hle, hall⟩ := hX h hfloat
    exact ⟨hle, fun heq => ⟨Node.binds_of_le (Nat.le_succ k) (hall heq).1, (hall heq).2⟩⟩
  | @more us g k' vs op l r hl hg hop hk hslash hr ih =>
    obtain ⟨hlle, hlall⟩ := ih (Node.forall_walk_child hfloat (by simp [Node.children]))
    obtain ⟨hrle, hrall⟩ := hX hr (Node.forall_walk_child hfloat (by simp [Node.children]))
    have hlevel := levelOf_of_mem_signs hop
    have hcount : (us ++ (g ++ (op.toList ++ (k' ++ vs)))).count '(' =
        us.count '(' + g.count '(' + k'.count '(' + vs.count '(' := by
      simp only [List.count_append, count_of_mem_signs hop]
      omega
    have hshown : (Node.binary op l r (Builder.joined l r)).expressionText.toList.count '(' =
        l.expressionText.toList.count '(' + r.expressionText.toList.count '(' := by
      simp [Node.toList_expressionText_binary, List.count_append, count_of_mem_signs hop]
    refine ⟨by omega, fun heq => ⟨by simp [Node.binds, hlevel], ?_⟩⟩
    obtain ⟨hlbinds, hlparens⟩ := hlall (by omega)
    obtain ⟨hrbinds, hrparens⟩ := hrall (by omega)
    simp only [Node.walk, List.forall_mem_cons, List.forall_mem_append]
    exact ⟨Node.needsParens_binary.2 (by rw [hlevel]; exact ⟨hlbinds, hrbinds⟩), hlparens, hrparens⟩

/-- An expression with no other parentheses than those in its literals needs none. -/
lemma countsAt_expr (d : ℕ) : CountsAt 0 (ExprAt d) := by
  induction d with
  | zero => exact fun _ _ _ h => h.elim
  | succ d ih =>
    exact countsAt_level (countsAt_level (countsAt_level (countsAt_operand ih)))

/-! ### Reading the text again -/

/-- The text of an expression that needs no parentheses is read as this expression. -/
lemma parse_return_text (h : e.IsExpression Literal.Writable) (hplain : ∀ m ∈ e.walk, m.isPlain)
    (hhigh : e.height + 2 ≤ Node.maxLevels) (hdepth : 0 < depth) :
    ∃ v loc loc', parse depth ("return " ++ e.expressionText ++ ";") =
      .ok (.program [.ret (some v) loc] loc') ∧ v.bare = e.bare := by
  have hspelled := Node.spelledExpr_words h hplain (Node.binds_zero e)
  obtain ⟨v, hshape, hlike⟩ := shapedExpr_of_spelledExpr hspelled h hdepth
    ("return".toList ++ [' ']) ";".toList
  rw [(Node.row_words h).2] at hshape hlike
  have hsource : ("return " ++ e.expressionText ++ ";").toList =
      ("return".toList ++ [' ']) ++ (e.expressionText.toList ++ ";".toList) := by
    rw [String.toList_append, String.toList_append, List.append_assoc]
    rfl
  rw [← hsource] at hlike
  generalize "return " ++ e.expressionText ++ ";" = source at hsource hlike ⊢
  have hstmt : StmtAt (depth + 1) .initial source.toList
      (.ret (some v) (some (.over .initial source.toList))) :=
    .retValue (.blank (by decide) .nil) (wordEnd_cons (by decide)) hshape .nil (by simp [hsource])
  refine ⟨v, _, _, parse_eq_ok.2 ⟨_, program_of_stmt le_rfl hstmt, ?_, ?_, ?_⟩, hlike.bare_eq⟩
  · simp [Cursor.within]
  · rw [Node.walk_eq, List.forall_mem_cons]
    refine ⟨rfl, ?_⟩
    rw [Node.children, List.flatMap_singleton, Node.walk, List.forall_mem_cons]
    exact ⟨rfl, hlike.fits⟩
  · have hheight := height_eq_of_like hlike
    rw [Node.height, Node.heightAll, Node.heightAll, Node.height, hheight]
    omega

/-- What is read from a text with the parentheses in its literals only needs no other ones. -/
lemma needsParens_of_parse {source : String} {loc loc' : Option Span}
    (h : parse depth source = .ok (.program [.ret (some v) loc] loc'))
    (hfloat : ∀ m ∈ v.walk, m.kind ≠ "Float")
    (hcount : source.toList.count '(' = v.expressionText.toList.count '(') :
    ∀ m ∈ v.walk, m.needsParens = false := by
  obtain ⟨ns, hns, hparts⟩ := parts_of_parse h
  obtain ⟨rfl, -⟩ := Node.program.inj hns
  obtain ⟨a, w, b, htext, hseated⟩ :=
    hparts.placed (.ret (some v) loc) (by simp) (.ret (some v) loc) (by simp [Node.walk])
  obtain ⟨d, -, hshape⟩ := hseated.shape rfl
  cases d with
  | zero => exact hshape.elim
  | succ d =>
    cases hshape with
    | @retValue g vs k _ hg hend hv hk hus =>
      have hcounted := countsAt_expr d hv hfloat
      -- the text of the value is a piece of the source
      have hle : vs.count '(' ≤ source.toList.count '(' := by
        rw [htext, hus]
        simp only [List.count_append]
        omega
      exact (hcounted.ungrouped (le_antisymm (hle.trans hcount.le) hcounted.count_le)).2

lemma isPlain_of_not_needsParens {m : Tree} (hfloat : m.kind ≠ "Float")
    (htext : ∀ s loc, m = .literal (.text s) loc → ∀ c ∈ s.toList, c ∉ ['"', '\\', '\n'])
    (hparens : m.needsParens = false) : m.isPlain := by
  cases m with
  | literal w loc =>
    cases w with
    | float x => exact absurd rfl hfloat
    | text s => simpa [Node.isPlain] using htext s loc rfl
    | _ => rfl
  | binary op l r loc => simpa [Node.isPlain] using Node.needsParens_binary.1 hparens
  | _ => rfl

/-- **Explained expressions**: the text of an expression of a program, if it has no floating-point
number and no text with a character to be escaped, is read as this expression exactly if no operand
in it needs parentheses. -/
theorem parse_expressionText_iff {source : String} {t : Tree}
    (h : parse depth source = .ok t) (he : e ∈ t.walk) (hexpr : e.isExpression)
    (hfloat : ∀ m ∈ e.walk, m.kind ≠ "Float")
    (htext : ∀ s loc, Node.literal (.text s) loc ∈ e.walk →
      ∀ c ∈ s.toList, c ∉ ['"', '\\', '\n']) :
    (∃ v loc loc', parse depth ("return " ++ e.expressionText ++ ";") =
      .ok (.program [.ret (some v) loc] loc') ∧ v.bare = e.bare) ↔
      ∀ m ∈ e.walk, m.needsParens = false := by
  constructor
  · rintro ⟨v, loc, loc', hparse, hbare⟩
    have hkinds : ∀ m ∈ v.walk, m.kind ≠ "Float" := by
      rwa [← Node.forall_walk_bare (fun m => by rw [Node.kind_bare]), hbare,
        Node.forall_walk_bare fun m => by rw [Node.kind_bare]]
    have hsame : v.expressionText = e.expressionText := by
      rw [← Node.expressionText_bare, hbare, Node.expressionText_bare]
    have hcount : ("return " ++ e.expressionText ++ ";").toList.count '(' =
        v.expressionText.toList.count '(' := by
      simp [hsame]
    have hparens := needsParens_of_parse hparse hkinds hcount
    rwa [← Node.forall_walk_bare (fun m => by rw [Node.needsParens_bare]), hbare,
      Node.forall_walk_bare fun m => by rw [Node.needsParens_bare]] at hparens
  · intro hparens
    have hplain : ∀ m ∈ e.walk, m.isPlain := by
      intro m hm
      have hquoted := fun s loc (hs : m = .literal (.text s) loc) => htext s loc (hs ▸ hm)
      exact isPlain_of_not_needsParens (hfloat m hm) hquoted (hparens m hm)
    have hwritable : ∀ m ∈ e.walk, m.LiteralIs Literal.Writable := fun m hm =>
      writable_of_mem_walk h (Node.mem_walk_trans hm he) (hplain m hm)
    obtain ⟨hsorted, hheight⟩ := (isProgram_of_parse h).expression he hexpr
    obtain ⟨-, -, -, -, hhigh⟩ := parse_eq_ok.1 h
    have hdepth : 0 < depth := by
      obtain ⟨ns, rfl, -⟩ := parts_of_parse h
      rw [Node.walk_eq, List.mem_cons, List.mem_flatMap] at he
      rcases he with rfl | ⟨s, hs, he⟩
      · cases hexpr
      · have hstatement := Node.isStatements_iff.1 (isProgram_of_parse h) s hs
        have := (Node.two_le_levels he hexpr hstatement).trans (levels_le_of_parse h hs)
        omega
    exact parse_return_text (hsorted.imp hwritable) hplain (hheight.trans hhigh) hdepth

def ungrouped : String := "string s; while ((a - 1) - -2 * b <= 007) s = \"(\" + s;"

theorem parse_expressionText_ungrouped : ∃ t e, parse 5 ungrouped = .ok t ∧ e ∈ t.walk ∧
    e.isExpression ∧ e.expressionText = "a - 1 - -2 * b <= 7" ∧
    ∃ v loc loc', parse 5 ("return " ++ e.expressionText ++ ";") =
      .ok (.program [.ret (some v) loc] loc') ∧ v.bare = e.bare := by
  have hread : (parse 5 ungrouped).map (fun t => t.walk[3]?.map fun e : Tree =>
      (e.isExpression, e.expressionText, e.walk.map Node.kind, e.walk.any Node.needsParens)) =
      .ok (some (true, "a - 1 - -2 * b <= 7", ["BinaryExpr", "BinaryExpr", "BinaryExpr",
        "Identifier", "Integer", "BinaryExpr", "Integer", "Identifier", "Integer"], false)) := by
    decide +kernel
  obtain ⟨t, ht, hsome⟩ := exists_of_map_parse hread
  obtain ⟨e, he, hview⟩ := Option.map_eq_some_iff.1 hsome
  simp only [Prod.mk.injEq] at hview
  obtain ⟨hexpr, hshown, hkinds, hparens⟩ := hview
  have hfloat : ∀ m ∈ e.walk, m.kind ≠ "Float" :=
    Node.kind_ne_of_not_mem (by rw [hkinds]; decide)
  have htext : ∀ m ∈ e.walk, m.kind ≠ "String" :=
    Node.kind_ne_of_not_mem (by rw [hkinds]; decide)
  have hmem := List.mem_of_getElem? he
  refine ⟨t, e, ht, hmem, hexpr, hshown, (parse_expressionText_iff ht hmem hexpr hfloat ?_).2 ?_⟩
  · exact fun s loc hs => absurd rfl (htext _ hs)
  · simpa using hparens

/-- The parentheses of `(1 + 2) * 3` are lost in its text, which is read as another expression. -/
theorem grouped_expressionText_not_read : ∃ t e, parse 5 "return (1 + 2) * 3;" = .ok t ∧
    e ∈ t.walk ∧ e.isExpression ∧ e.expressionText = "1 + 2 * 3" ∧
    ¬ ∃ v loc loc', parse 5 ("return " ++ e.expressionText ++ ";") =
      .ok (.program [.ret (some v) loc] loc') ∧ v.bare = e.bare := by
  have hread : (parse 5 "return (1 + 2) * 3;").map (fun t => t.walk[2]?.map fun e : Tree =>
      (e.isExpression, e.expressionText, e.toSExpr.render)) =
      .ok (some (true, "1 + 2 * 3", "(* (+ 1 2) 3)")) := by
    decide +kernel
  have hagain : (parse 5 "return 1 + 2 * 3;").map (fun t => t.walk[2]?.map fun v : Tree =>
      v.toSExpr.render) = .ok (some "(+ 1 (* 2 3))") := by
    decide +kernel
  obtain ⟨t, ht, hsome⟩ := exists_of_map_parse hread
  obtain ⟨e, he, hview⟩ := Option.map_eq_some_iff.1 hsome
  simp only [Prod.mk.injEq] at hview
  obtain ⟨hexpr, hshown, hdump⟩ := hview
  refine ⟨t, e, ht, List.mem_of_getElem? he, hexpr, hshown, ?_⟩
  rintro ⟨v, loc, loc', hparse, hbare⟩
  have hsource : "return " ++ "1 + 2 * 3" ++ ";" = "return 1 + 2 * 3;" := by decide
  rw [hshown, hsource] at hparse
  have hthird : (Node.program [.ret (some v) loc] loc').walk[2]? = some v := by
    simp [Node.walk, Node.walkAll, Node.walk_eq v]
  have hdump' : v.toSExpr.render = "(+ 1 (* 2 3))" := by
    simpa [hparse, Except.map, hthird] using hagain
  have hsame : v.toSExpr = e.toSExpr := by
    rw [← Node.toSExpr_filled_bare v, hbare, Node.toSExpr_filled_bare e]
  rw [hsame, hdump] at hdump'
  exact absurd hdump' (by decide)

end Grammar

end Primer
