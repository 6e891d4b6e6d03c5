import Mathlib.Tactic
import Primer.Proofs.AcceptedExpression
import Primer.Proofs.BuiltTrees
import Primer.Proofs.RuleDepth
import Primer.Tree.SExpr

/-!
What a text contains that was read as a program.

The text is the tokens of the program with layout between them, and perhaps a main function around
them. No `else` follows a statement that could have taken it: where a statement ends in a branch
without one, the rule for an `else` has been tried at that very place and has rejected, with fewer
levels left than any branch around it has.
-/

namespace Primer.Grammar

open Rule Lexeme

variable {c c' : Cursor} {n : Tree} {ts : List String} {u : Unit} {x s : Rule Tree}

inductive Written : Tree → List String → Prop
  | declare {t x : String} {loc : Option Span} : Written (.declare t x none loc) [t, x, ";"]
  | declareAs {t x : String} {v : Tree} {loc : Option Span} {ts : List String}
    (hv : WrittenExpr 0 v ts) :
    Written (.declare t x (some v) loc) (t :: x :: "=" :: (ts ++ [";"]))
  | assign {x : String} {v : Tree} {loc : Option Span} {ts : List String}
    (hv : WrittenExpr 0 v ts) : Written (.assign x v loc) (x :: "=" :: (ts ++ [";"]))
  | branch {c b : Tree} {loc : Option Span} {ts us : List String} (hc : WrittenExpr 0 c ts)
    (hb : Written b us) : Written (.branch c b none loc) ("if" :: "(" :: (ts ++ ")" :: us))
  | branchElse {c b e : Tree} {loc : Option Span} {ts us vs : List String}
    (hc : WrittenExpr 0 c ts) (hb : Written b us) (he : Written e vs) :
    Written (.branch c b (some e) loc) ("if" :: "(" :: (ts ++ ")" :: (us ++ "else" :: vs)))
  | whileLoop {c b : Tree} {loc : Option Span} {ts us : List String} (hc : WrittenExpr 0 c ts)
    (hb : Written b us) : Written (.whileLoop c b loc) ("while" :: "(" :: (ts ++ ")" :: us))
  | ret {loc : Option Span} : Written (.ret none loc) ["return", ";"]
  | retValue {v : Tree} {loc : Option Span} {ts : List String} (hv : WrittenExpr 0 v ts) :
    Written (.ret (some v) loc) ("return" :: (ts ++ [";"]))
  | block {pieces : List (Tree × List String)} {loc : Option Span}
    (h : ∀ n ∈ pieces, Written n.1 n.2) : Written (.block (pieces.map Prod.fst) loc)
      ("\x7b" :: (pieces.flatMap Prod.snd ++ ["\x7d"]))
  | program {pieces : List (Tree × List String)} {loc : Option Span}
    (h : ∀ n ∈ pieces, Written n.1 n.2) :
    Written (.program (pieces.map Prod.fst) loc) (pieces.flatMap Prod.snd)

/-- Between the cursors stand the tokens of the statement, which is a sensible one. If it could
still take an `else`, the rule for one rejects behind it. -/
structure StmtBetween (s : Rule Tree) (n : Tree) (c c' : Cursor) : Prop where
  sorted : n.IsStatement fun _ => True
  written : ∃ ts, ts ≠ [] ∧ Written n ts ∧ Laid ts c.rest c'.rest
  closed : n.EndsOpen → elseClause s c' = .reject

def SoundStmt (s : Rule Tree) : Prop := ∀ c n c', s c = .accept n c' → StmtBetween s n c c'

structure RowBetween (ns : List Tree) (c c' : Cursor) : Prop where
  sorted : Node.IsStatements (fun _ => True) ns
  written : ∃ pieces : List (Tree × List String), pieces.map Prod.fst = ns ∧
    (∀ n ∈ pieces, Written n.1 n.2) ∧ Laid (pieces.flatMap Prod.snd) c.rest c'.rest

lemma laid_gap_sign {t : String} (ht : t ≠ "") {c₁ : Cursor} {v : Unit}
    (hgap : gap c = .accept u c₁) (h : sign t c₁ = .accept v c') : Laid [t] c.rest c'.rest :=
  (laid_sign ht h).behind_gap (by simp) hgap

/-! ### Statements in a row -/

lemma rowBetween_of_run {ns : List Tree} (hs : SoundStmt s) (h : Run (item s) c ns c') :
    RowBetween ns c c' := by
  induction h with
  | nil => exact ⟨trivial, [], rfl, by simp, .nil⟩
  | @cons c c₁ c₂ n ns hn _ ih =>
    obtain ⟨hsorted, pieces, rfl, hpieces, hlaid⟩ := ih
    obtain ⟨_, c₃, hgap, hn⟩ := bind_eq_accept.1 hn
    obtain ⟨hsorted', ⟨ts, hne, hts, hlaid'⟩, -⟩ := hs _ _ _ hn
    refine ⟨⟨hsorted', hsorted⟩, (n, ts) :: pieces, rfl, ?_,
      (hlaid'.behind_gap hne hgap).append hlaid⟩
    simpa using ⟨hts, fun n ts h => hpieces (n, ts) h⟩

lemma rowBetween_statements {ns : List Tree} (hs : SoundStmt s)
    (h : statements s c = .accept ns c') : RowBetween ns c c' :=
  rowBetween_of_run hs (run_of_many h)

lemma braced_eq_accept {ns : List Tree} (hs : SoundStmt s) (h : braced s c = .accept ns c') :
    ∃ c₁ c₂, Laid ["\x7b"] c.rest c₁.rest ∧ RowBetween ns c₁ c₂ ∧
      Laid ["\x7d"] c₂.rest c'.rest := by
  simp only [braced, bind_eq_accept, pure_eq_accept] at h
  obtain ⟨_, c₁, hopen, ns, c₂, hns, _, c₃, hgap, _, c₄, hclose, rfl, rfl⟩ := h
  exact ⟨c₁, c₂, laid_sign (by decide) hopen, rowBetween_statements hs hns,
    laid_gap_sign (by decide) hgap hclose⟩

/-! ### Single statements -/

lemma laid_equals (h : equals c = .accept u c') : Laid ["="] c.rest c'.rest := by
  obtain ⟨_, c₁, hsign, habsent⟩ := bind_eq_accept.1 h
  obtain ⟨-, rfl⟩ := absent_eq_accept.1 habsent
  exact laid_sign (by decide) hsign

/-- An expression after a gap. -/
lemma exprBetween_gap {e : Tree} (hx : Sound 0 x) {c₁ : Cursor} (hgap : gap c = .accept u c₁)
    (he : x c₁ = .accept e c') : ExprBetween 0 e c c' := by
  obtain ⟨hsorted, ts, hts, hlaid⟩ := hx _ _ _ he
  exact ⟨hsorted, ts, hts, hlaid.behind_gap hts.ne_nil hgap⟩

lemma stmtBetween_block (hs : SoundStmt s) {s' : Rule Tree} (h : block s c = .accept n c') :
    StmtBetween s' n c c' := by
  obtain ⟨ns, c₁, hns, hpure⟩ := located_bind_eq_accept.1 h
  obtain ⟨rfl, rfl⟩ := pure_eq_accept.1 hpure
  obtain ⟨c₁, c₂, hopen, ⟨hsorted, pieces, rfl, hpieces, hlaid⟩, hclose⟩ := braced_eq_accept hs hns
  exact ⟨hsorted, ⟨_, by simp, .block hpieces, hopen.append (hlaid.append hclose)⟩, False.elim⟩

lemma stmtBetween_declaration (hx : Sound 0 x) {s' : Rule Tree}
    (h : declaration x c = .accept n c') : StmtBetween s' n c c' := by
  obtain ⟨⟨type, x, value⟩, c₁, hparts, hpure⟩ := located_bind_eq_accept.1 h
  obtain ⟨rfl, rfl⟩ := pure_eq_accept.1 hpure
  simp only [bind_eq_accept, pure_eq_accept, Prod.mk.injEq] at hparts
  obtain ⟨type, c₁, htype, _, c₂, hgap, x, c₃, hname, _, c₄, hgap', value, c₅, hvalue, _, c₆, hgap₂,
    _, c₇, hend, ⟨rfl, rfl, rfl⟩, rfl⟩ := hparts
  obtain ⟨k, hk, rfl, hlaid⟩ := laid_textOf htype
  have htypes := take_of_anyWord? hk
  have hne : ∀ t ∈ typeNames, t ≠ "" := by decide
  obtain ⟨hisName, hlaidName⟩ := laid_name hname
  have hhead := (hlaid (hne _ htypes)).append (hlaidName.behind_gap (by simp) hgap)
  have hsemi := laid_gap_sign (by decide) hgap₂ hend
  rcases optional_eq_accept.1 hvalue with ⟨v, rfl, hv⟩ | ⟨rfl, -, rfl⟩
  · simp only [initializer, bind_eq_accept] at hv
    obtain ⟨_, c₈, heq, _, c₉, hgap₃, hv⟩ := hv
    obtain ⟨hsorted, ts, hts, hlaidValue⟩ := exprBetween_gap hx hgap₃ hv
    have hsign := (laid_equals heq).behind_gap (by simp) hgap'
    exact ⟨⟨htypes, hisName, hsorted⟩, ⟨_, by simp, .declareAs hts,
      hhead.append (hsign.append (hlaidValue.append hsemi))⟩, False.elim⟩
  · exact ⟨⟨htypes, hisName⟩, ⟨_, by simp, .declare,
      hhead.append (hsemi.behind_gap (by simp) hgap')⟩, False.elim⟩

lemma stmtBetween_assignment (hx : Sound 0 x) {s' : Rule Tree}
    (h : assignment x c = .accept n c') : StmtBetween s' n c c' := by
  obtain ⟨⟨x, value⟩, c₁, hparts, hpure⟩ := located_bind_eq_accept.1 h
  obtain ⟨rfl, rfl⟩ := pure_eq_accept.1 hpure
  simp only [bind_eq_accept, pure_eq_accept, Prod.mk.injEq] at hparts
  obtain ⟨x, c₁, hname, _, c₂, hgap, _, c₃, heq, _, c₄, hgap', value, c₅, hvalue, _, c₆, hgap₂,
    _, c₇, hend, ⟨rfl, rfl⟩, rfl⟩ := hparts
  obtain ⟨hisName, hlaidName⟩ := laid_name hname
  obtain ⟨hsorted, ts, hts, hlaid⟩ := exprBetween_gap hx hgap' hvalue
  have hsign := (laid_equals heq).behind_gap (by simp) hgap
  have hsemi := laid_gap_sign (by decide) hgap₂ hend
  exact ⟨⟨hisName, hsorted⟩, ⟨_, by simp, .assign hts,
    hlaidName.append (hsign.append (hlaid.append hsemi))⟩, False.elim⟩

lemma stmtBetween_return (hx : Sound 0 x) {s' : Rule Tree}
    (h : returnStatement x c = .accept n c') : StmtBetween s' n c c' := by
  obtain ⟨value, c₁, hparts, hpure⟩ := located_bind_eq_accept.1 h
  obtain ⟨rfl, rfl⟩ := pure_eq_accept.1 hpure
  simp only [bind_eq_accept, pure_eq_accept] at hparts
  obtain ⟨_, c₁, hword, value, c₂, hvalue, _, c₃, hgap, _, c₄, hend, rfl, rfl⟩ := hparts
  have hhead := laid_word (by decide) hword
  have hsemi := laid_gap_sign (by decide) hgap hend
  rcases optional_eq_accept.1 hvalue with ⟨v, rfl, hv⟩ | ⟨rfl, -, rfl⟩
  · obtain ⟨_, c₅, hgap', hv⟩ := bind_eq_accept.1 hv
    obtain ⟨hsorted, ts, hts, hlaid⟩ := exprBetween_gap hx hgap' hv
    exact ⟨hsorted, ⟨_, by simp, .retValue hts, hhead.append (hlaid.append hsemi)⟩, False.elim⟩
  · exact ⟨trivial, ⟨_, by simp, .ret, hhead.append hsemi⟩, False.elim⟩

/-! ### Conditions and bodies -/

lemma guarded_eq_accept {keyword : String} {condition b : Tree} (hx : Sound 0 x) (hs : SoundStmt s)
    (hword : keyword ≠ "") (h : guarded keyword x s c = .accept (condition, b) c') :
    condition.IsExpression (fun _ => True) ∧ b.IsStatement (fun _ => True) ∧
      (b.EndsOpen → elseClause s c' = .reject) ∧ ∃ ts us, WrittenExpr 0 condition ts ∧
        Written b us ∧ Laid (keyword :: "(" :: (ts ++ ")" :: us)) c.rest c'.rest := by
  simp only [guarded, bind_eq_accept, pure_eq_accept, Prod.mk.injEq] at h
  obtain ⟨_, c₁, hkeyword, _, c₂, hgap, _, c₃, hopen, _, c₄, hgap₁, condition, c₅, hcondition,
    _, c₆, hgap₂, _, c₇, hclose, _, c₈, hgap₃, b, c₉, hb, ⟨rfl, rfl⟩, rfl⟩ := h
  obtain ⟨hsorted, ts, hts, hlaid⟩ := exprBetween_gap hx hgap₁ hcondition
  obtain ⟨hsorted', ⟨us, hne, hus, hlaid'⟩, hclosed⟩ := hs _ _ _ hb
  have hhead := (laid_word hword hkeyword).append (laid_gap_sign (by decide) hgap hopen)
  have hbody := (laid_gap_sign (by decide) hgap₂ hclose).append (hlaid'.behind_gap hne hgap₃)
  exact ⟨hsorted, hsorted', hclosed, ts, us, hts, hus, hhead.append (hlaid.append hbody)⟩

/-- Where an `else` is rejected, it is also rejected with more levels left. -/
lemma elseClause_reject_of_below {s' : Rule Tree} (hbelow : Below s s')
    (h : elseClause s c = .reject) : elseClause s' c = .reject := by
  have helse : Below (elseClause s) (elseClause s') :=
    .after fun _ => .after fun _ => .after fun _ => hbelow
  rcases helse c with hdeep | heq
  · rw [h] at hdeep
    cases hdeep
  · rw [← heq, h]

lemma stmtBetween_while {s' : Rule Tree} (hx : Sound 0 x) (hs : SoundStmt s) (hbelow : Below s s')
    (h : whileLoop x s c = .accept n c') : StmtBetween s' n c c' := by
  obtain ⟨⟨condition, b⟩, c₁, hguarded, hpure⟩ := located_bind_eq_accept.1 h
  obtain ⟨rfl, rfl⟩ := pure_eq_accept.1 hpure
  obtain ⟨hsorted, hsorted', hclosed, ts, us, hts, hus, hlaid⟩ :=
    guarded_eq_accept hx hs (by decide) hguarded
  exact ⟨⟨hsorted, hsorted'⟩, ⟨_, by simp, .whileLoop hts hus, hlaid⟩,
    fun hopen => elseClause_reject_of_below hbelow (hclosed hopen)⟩

lemma stmtBetween_branch {s' : Rule Tree} (hx : Sound 0 x) (hs : SoundStmt s) (hbelow : Below s s')
    (h : branch x s c = .accept n c') : StmtBetween s' n c c' := by
  obtain ⟨⟨⟨condition, b⟩, otherwise⟩, c₁, hparts, hpure⟩ := located_bind_eq_accept.1 h
  obtain ⟨rfl, rfl⟩ := pure_eq_accept.1 hpure
  simp only [bind_eq_accept, pure_eq_accept, Prod.mk.injEq] at hparts
  obtain ⟨⟨condition, b⟩, c₁, hguarded, otherwise, c₂, helse, ⟨⟨rfl, rfl⟩, rfl⟩, rfl⟩ := hparts
  obtain ⟨hsorted, hsorted', hclosed, ts, us, hts, hus, hlaid⟩ :=
    guarded_eq_accept hx hs (by decide) hguarded
  rcases optional_eq_accept.1 helse with ⟨e, rfl, he⟩ | ⟨rfl, hreject, rfl⟩
  · -- An open end of the body would have rejected the `else` that was just taken.
    have hopen : ¬ b.EndsOpen := fun hopen => by
      rw [hclosed hopen] at he
      cases he
    simp only [elseClause, bind_eq_accept] at he
    obtain ⟨_, c₃, hgap, _, c₄, hword, _, c₅, hgap', he⟩ := he
    obtain ⟨hsortedElse, ⟨vs, hne, hvs, hlaidElse⟩, hclosedElse⟩ := hs _ _ _ he
    have hlast := ((laid_word (by decide) hword).behind_gap (by simp) hgap).append
      (hlaidElse.behind_gap hne hgap')
    refine ⟨⟨hsorted, hsorted', hopen, hsortedElse⟩, ⟨_, by simp, .branchElse hts hus hvs, ?_⟩,
      fun hopenElse => elseClause_reject_of_below hbelow (hclosedElse hopenElse)⟩
    simpa using hlaid.append hlast
  · exact ⟨⟨hsorted, hsorted'⟩, ⟨_, by simp, .branch hts hus, hlaid⟩,
      fun _ => elseClause_reject_of_below hbelow hreject⟩

lemma soundStmt_statementOf (hx : Sound 0 x) (hs : SoundStmt s)
    (hbelow : Below s (statementOf x s)) : SoundStmt (statementOf x s) := by
  intro c n c' h
  simp only [statementOf, orElse_eq_accept] at h
  rcases h with h | ⟨-, h | ⟨-, h | ⟨-, h | ⟨-, h | ⟨-, h⟩⟩⟩⟩⟩
  · exact stmtBetween_block hs h
  · exact stmtBetween_branch hx hs hbelow h
  · exact stmtBetween_while hx hs hbelow h
  · exact stmtBetween_return hx h
  · exact stmtBetween_declaration hx h
  · exact stmtBetween_assignment hx h

/-- **Statements**: where a statement is read, its tokens stand between layout. -/
theorem soundStmt_statement (depth : ℕ) : SoundStmt (statement depth) := by
  induction depth with
  | zero => intro c n c' h; cases h
  | succ depth ih => exact soundStmt_statementOf (sound_expression depth) ih (below_statement depth)

/-! ### Programs -/

def inMain (ts : List String) : List String :=
  "int" :: "main" :: "(" :: ")" :: "\x7b" :: (ts ++ ["\x7d"])

lemma laid_main {ns : List Tree} (hs : SoundStmt s) (h : mainFunction s c = .accept ns c') :
    Node.IsStatements (fun _ => True) ns ∧ ∃ pieces : List (Tree × List String),
      pieces.map Prod.fst = ns ∧ (∀ n ∈ pieces, Written n.1 n.2) ∧
      Laid (inMain (pieces.flatMap Prod.snd)) c.rest c'.rest := by
  simp only [mainFunction, bind_eq_accept] at h
  obtain ⟨_, c₁, hint, _, c₂, hgap, _, c₃, hmain, _, c₄, hgap₁, _, c₅, hopen, _, c₆, hgap₂, _, c₇,
    hclose, _, c₈, hgap₃, hbraced⟩ := h
  obtain ⟨c₉, c₁₀, hbrace, ⟨hsorted, pieces, hmap, hpieces, hlaid⟩, hbrace'⟩ :=
    braced_eq_accept hs hbraced
  have hwords := (laid_word (by decide) hint).append
    ((laid_word (by decide) hmain).behind_gap (by simp) hgap)
  have hparens := (laid_gap_sign (by decide) hgap₁ hopen).append
    (laid_gap_sign (by decide) hgap₂ hclose)
  have hbody := (hbrace.behind_gap (by simp) hgap₃).append (hlaid.append hbrace')
  exact ⟨hsorted, pieces, hmap, hpieces, hwords.append (hparens.append hbody)⟩

/-- The layout around the tokens of a whole text. -/
lemma laid_between_gaps {us : List String} {c₁ c₂ : Cursor} {v : Unit}
    (hgap : gap c = .accept u c₁) (h : Laid us c₁.rest c₂.rest) (hgap' : gap c₂ = .accept v c')
    (hend : c'.rest = []) : ∃ rest, Laid us c.rest rest ∧ Layout (rest ++ ['\n']) := by
  obtain ⟨g', hg', hlayout', -⟩ := layout_of_gap hgap'
  rw [hend, List.append_nil] at hg'
  subst hg'
  by_cases hus : us = []
  · -- With no tokens in between the two gaps make one.
    subst hus
    generalize hr : c₁.rest = r at h
    generalize hr' : c₂.rest = r' at h hlayout'
    cases h
    obtain ⟨g, hg, hlast, hinner⟩ := layout_of_gap hgap
    refine ⟨c.rest, .nil, ?_⟩
    rw [hr] at hg hinner
    by_cases hnil : r = []
    · rwa [hg, hnil, List.append_nil]
    · rw [hg, List.append_assoc]
      exact (hinner hnil).append hlayout'
  · exact ⟨c₂.rest, h.behind_gap hus hgap, hlayout'⟩

/-- A program that is read to the end of the text. -/
lemma program_eq_accept {p : Tree} {depth : ℕ} (h : program depth c = .accept p c')
    (hend : c'.rest = []) :
    p.IsProgram (fun _ => True) ∧ ∃ ts us rest, Written p ts ∧ (us = ts ∨ us = inMain ts) ∧
      Laid us c.rest rest ∧ Layout (rest ++ ['\n']) := by
  obtain ⟨ns, c₁, hparts, hpure⟩ := located_bind_eq_accept.1 h
  obtain ⟨rfl, rfl⟩ := pure_eq_accept.1 hpure
  simp only [bind_eq_accept, pure_eq_accept] at hparts
  obtain ⟨_, c₁, hgap, ns, c₂, hbody, _, c₃, hgap', rfl, rfl⟩ := hparts
  rcases orElse_eq_accept.1 hbody with hmain | ⟨-, hrow⟩
  · obtain ⟨hsorted, pieces, rfl, hpieces, hlaid⟩ := laid_main (soundStmt_statement depth) hmain
    obtain ⟨rest, hrest⟩ := laid_between_gaps hgap hlaid hgap' hend
    exact ⟨hsorted, _, _, rest, .program hpieces, Or.inr rfl, hrest⟩
  · obtain ⟨hsorted, pieces, rfl, hpieces, hlaid⟩ :=
      rowBetween_statements (soundStmt_statement depth) hrow
    obtain ⟨rest, hrest⟩ := laid_between_gaps hgap hlaid hgap' hend
    exact ⟨hsorted, _, _, rest, .program hpieces, Or.inl rfl, hrest⟩

variable {depth : ℕ} {source : String} {p : Tree}

lemma accepted_eq_ok {text : List Char} {t : Tree} :
    accepted text t = .ok p ↔
      t = p ∧ (∀ n ∈ t.walk, longInteger? text n = none) ∧ t.height ≤ Node.maxLevels := by
  unfold accepted
  cases hlong : t.walk.findSome? (longInteger? text) with
  | some found =>
    obtain ⟨n, hn, hfound⟩ := List.exists_of_findSome?_eq_some hlong
    simp only [reduceCtorEq, false_iff]
    rintro ⟨-, hshort, -⟩
    rw [hshort n hn] at hfound
    cases hfound
  | none =>
    rw [List.findSome?_eq_none_iff] at hlong
    cases hdeep : t.overflow? Node.maxLevels with
    | some location =>
      have hhigh : ¬ t.height ≤ Node.maxLevels := by
        rw [← Node.overflow?_eq_none_iff, hdeep]
        simp
      simp [hhigh]
    | none => simpa using fun _ => ⟨hlong, Node.overflow?_eq_none_iff.1 hdeep⟩

/-- A text is read as a program exactly if the grammar reads all of it, its whole numbers are not
too long and the tree is not too high. -/
lemma parse_eq_ok : parse depth source = .ok p ↔
    ∃ c, program (depth + 1) (.ofText source.toList) = .accept p c ∧ c.rest = [] ∧
      (∀ n ∈ p.walk, longInteger? source.toList n = none) ∧ p.height ≤ Node.maxLevels := by
  rw [parse_eq_parseDirectly]
  unfold parseDirectly
  dsimp only
  cases program (depth + 1) (.ofText source.toList) with
  | reject | tooDeep => simp
  | accept t c =>
    by_cases hrest : c.rest = []
    · simp only [hrest, List.isEmpty_nil, if_true, accepted_eq_ok, Reply.accept.injEq]
      constructor
      · rintro ⟨rfl, hlong, hhigh⟩
        exact ⟨c, ⟨rfl, rfl⟩, hrest, hlong, hhigh⟩
      · rintro ⟨_, ⟨rfl, rfl⟩, -, hlong, hhigh⟩
        exact ⟨rfl, hlong, hhigh⟩
    · simp only [List.isEmpty_iff, hrest, if_false, reduceCtorEq, Reply.accept.injEq, false_iff]
      rintro ⟨_, ⟨rfl, rfl⟩, hnil, -⟩
      exact hrest hnil

lemma parse_of_accept {t : Tree} {text : List Char} (htext : source.toList = text)
    (h : program (depth + 1) (.within text 0) = .accept t (.within text text.length)) :
    parse depth source = accepted text t := by
  have hend : (Cursor.within text text.length).rest.isEmpty := by simp [Cursor.within]
  rw [parse_eq_parseDirectly]
  simp only [parseDirectly, htext, Cursor.ofText_eq_within, h, hend, if_true]

lemma parse_of_tooDeep (h : program (depth + 1) (.within source.toList 0) = .tooDeep) :
    parse depth source = .error .tooDeep := by
  rw [parse_eq_parseDirectly]
  simp only [parseDirectly, Cursor.ofText_eq_within, h]

lemma exists_of_map_parse {β : Type} {f : Tree → β} {b : β}
    (h : (parse depth source).map f = .ok b) :
    ∃ t, parse depth source = .ok t ∧ f t = b := by
  cases hp : parse depth source with
  | error fault =>
    rw [hp] at h
    cases h
  | ok t =>
    rw [hp] at h
    exact ⟨t, rfl, Except.ok.inj h⟩

lemma program_of_parse (h : parse depth source = .ok p) :
    ∃ c, program (depth + 1) (.ofText source.toList) = .accept p c ∧ c.rest = [] := by
  obtain ⟨c, hprogram, hend, -⟩ := parse_eq_ok.1 h
  exact ⟨c, hprogram, hend⟩

lemma isProgram_of_parse (h : parse depth source = .ok p) : p.IsProgram fun _ => True := by
  obtain ⟨c, hprogram, hend⟩ := program_of_parse h
  exact (program_eq_accept hprogram hend).1

/-- **Nothing invented, nothing dropped**: a text that is read as a program is layout and the tokens
of this program in their order, perhaps in a main function. A comment at the very end may lack its
line end. The program is a sensible one: every part of it is of the sort its place asks for, every
name, type and operator is one of the language, and no `else` stands behind a body that would have
taken it. -/
theorem laid_written_of_parse (h : parse depth source = .ok p) :
    p.IsProgram (fun _ => True) ∧ ∃ ts us rest, Written p ts ∧ (us = ts ∨ us = inMain ts) ∧
      Laid us source.toList rest ∧ Layout (rest ++ ['\n']) := by
  obtain ⟨c, hprogram, hend⟩ := program_of_parse h
  exact program_eq_accept hprogram hend

def crowded : String :=
  "int main()\x7bif(a)//b\nif(b)x=((01+b))*.50;else\x7b/**/\x7d\x7d // d"

def crowdedDump : String :=
  "(Program (IfStatement a (IfStatement b (Assignment x (* (+ 1 b) 0.5)) (Block)) nil))"

theorem crowded_laid_written : ∃ p, parse 8 crowded = .ok p ∧ p.toSExpr.render = crowdedDump ∧
    p.IsProgram (fun _ => True) ∧ ∃ ts us rest, Written p ts ∧ (us = ts ∨ us = inMain ts) ∧
      Laid us crowded.toList rest ∧ Layout (rest ++ ['\n']) := by
  have hread : (parse 8 crowded).map (fun p => p.toSExpr.render) = .ok crowdedDump := by
    decide +kernel
  cases hp : parse 8 crowded with
  | error fault =>
    rw [hp] at hread
    cases hread
  | ok p =>
    rw [hp] at hread
    exact ⟨p, rfl, Except.ok.inj hread, laid_written_of_parse hp⟩

end Primer.Grammar
