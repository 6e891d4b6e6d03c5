import Mathlib.Tactic
import Primer.Proofs.ProgramShapes
import Primer.Proofs.Spelling

/-!
Texts made from spellings have the shapes of their trees.

A spelling says which tokens are written and not where they stand, and so its text has the shape of
a tree that differs from the given one in places only. The levels that the shape takes are those of
the statements and of the parentheses around an expression. What is said of shapes then says that a
program is read from all of its spellings.
-/

namespace Primer

namespace Node

variable {n : Tree} {ns : List Tree}

mutual

/-- The levels that a statement takes, if no parentheses stand in its expressions. A block takes one
for what it looks for inside, even if there is nothing. -/
def levels : Tree → ℕ
  | .declare _ _ none _ => 1
  | .branch _ b none _ => b.levels + 1
  | .branch _ b (some e) _ => max b.levels e.levels + 1
  | .whileLoop _ b _ => b.levels + 1
  | .block ns _ => levelsAll ns + 1
  | _ => 2

def levelsAll : List Tree → ℕ
  | [] => 1
  | n :: ns => max n.levels (levelsAll ns)

end

lemma levelsAll_le_iff {d : ℕ} : levelsAll ns ≤ d ↔ 0 < d ∧ ∀ n ∈ ns, n.levels ≤ d := by
  induction ns with
  | nil => simp [levelsAll, Nat.one_le_iff_ne_zero, Nat.pos_iff_ne_zero]
  | cons n ns ih =>
    simp only [levelsAll, max_le_iff, ih, List.forall_mem_cons]
    tauto

lemma levels_pos (n : Tree) : 0 < n.levels := by
  unfold levels
  split <;> omega

lemma levels_le_height (n : Tree) : n.levels ≤ n.height + 1 := by
  induction n using Node.induction with
  | declare t x v loc ih => cases v <;> simp [levels, height]
  | branch c b e loc hc hb he =>
    cases e with
    | none =>
      simp only [levels, height]
      omega
    | some e =>
      have := he e rfl
      simp only [levels, height]
      omega
  | whileLoop c b loc hc hb =>
    simp only [levels, height]
    omega
  | block ns loc ih =>
    rw [levels, height, Nat.add_le_add_iff_right, levelsAll_le_iff]
    refine ⟨Nat.succ_pos _, fun n hn => (ih n hn).trans ?_⟩
    exact Nat.succ_le_succ (height_le_heightAll hn)
  | _ => exact Nat.succ_le_succ (height_pos _)

end Node

namespace Grammar

open Rule Lexeme Text

variable {text us vs : List Char} {d k : ℕ} {p : Position} {X S : Shape} {n c b e t v : Tree}
  {ts us' : List String}

/-! ### Trees that differ in places -/

/-- The tree read is the given one up to places, and its whole numbers are not too long. -/
structure Like (text : List Char) (t t' : Tree) : Prop where
  bare_eq : t'.bare = t.bare
  fits : ∀ n ∈ t'.walk, longInteger? text n = none

lemma Like.binary {l l' r r' : Tree} (op : String) (hl : Like text l l') (hr : Like text r r')
    (loc loc' : Option Span) : Like text (.binary op l r loc) (.binary op l' r' loc') where
  bare_eq := by rw [Node.bare, Node.bare, hl.bare_eq, hr.bare_eq]
  fits := by
    intro n hn
    rw [Node.walk, List.mem_cons, List.mem_append] at hn
    rcases hn with rfl | hn | hn
    · rfl
    · exact hl.fits n hn
    · exact hr.fits n hn

lemma bareAll_eq_of_like {ms ns : List Tree} (h : List.Forall₂ (Like text) ms ns) :
    Node.bareAll ns = Node.bareAll ms := by
  induction h with
  | nil => rfl
  | cons hn _ ih => rw [Node.bareAll, Node.bareAll, hn.bare_eq, ih]

/-- Nodes that are alike make a node that is alike, if only places differ. -/
lemma Like.of_children {t t' : Tree} (hbare : t'.bare = t.bare)
    (hself : longInteger? text t' = none)
    (hchildren : List.Forall₂ (Like text) t.children t'.children) : Like text t t' := by
  refine ⟨hbare, fun m hm => ?_⟩
  rw [Node.walk_eq, List.mem_cons, List.mem_flatMap] at hm
  rcases hm with rfl | ⟨c, hc, hm⟩
  · exact hself
  · obtain ⟨i, rfl⟩ := List.get_of_mem hc
    obtain ⟨hlen, hlike⟩ := List.forall₂_iff_get.1 hchildren
    exact (hlike i (i.2.trans_eq hlen.symm) i.2).fits m hm

lemma height_eq_of_like {t t' : Tree} (h : Like text t t') : t'.height = t.height := by
  rw [← Node.height_bare t', h.bare_eq, Node.height_bare]

/-- A tree that is read as it should be is refused only for its height. -/
lemma accepted_of_like {t t' : Tree} (h : Like text t t') :
    accepted text t' = .ok t' ∧ t.height ≤ Node.maxLevels ∨
      ∃ location, accepted text t' = .error (.nesting location) ∧ Node.maxLevels < t.height := by
  have hints : t'.walk.findSome? (longInteger? text) = none :=
    List.findSome?_eq_none_iff.2 h.fits
  rw [← height_eq_of_like h]
  unfold accepted
  rw [hints]
  cases hover : t'.overflow? Node.maxLevels with
  | none => exact Or.inl ⟨rfl, Node.overflow?_eq_none_iff.1 hover⟩
  | some location =>
    refine Or.inr ⟨location, rfl, ?_⟩
    by_contra hle
    rw [Node.overflow?_eq_none_iff.2 (by omega)] at hover
    simp at hover

/-! ### Levels of operators -/

def TierAt (d : ℕ) : ℕ → Shape
  | 0 => LevelAt (signs 0) (LevelAt (signs 1) (LevelAt (signs 2) (OperandAt (ExprAt d))))
  | 1 => LevelAt (signs 1) (LevelAt (signs 2) (OperandAt (ExprAt d)))
  | 2 => LevelAt (signs 2) (OperandAt (ExprAt d))
  | _ => OperandAt (ExprAt d)

lemma tierAt_of_le {j : ℕ} (hjk : j ≤ k) (h : TierAt d k p us e) : TierAt d j p us e := by
  have hstep : ∀ i, TierAt d (i + 1) p us e → TierAt d i p us e := by
    intro i hi
    rcases i with _ | _ | _ | i
    · exact .first hi
    · exact .first hi
    · exact .first hi
    · exact hi
  induction hjk with
  | refl => exact h
  | step _ ih => exact ih (hstep _ h)

lemma tierAt_of_operand (h : OperandAt (ExprAt d) p us e) : TierAt d k p us e := by
  have htop : TierAt d (k + 3) p us e := h
  exact tierAt_of_le (Nat.le_add_right k 3) htop

lemma tierAt_binary {op : String} {vs : List Char} {l r : Tree} (hop : op ∈ signs k)
    (hl : TierAt d k p us l)
    (hr : TierAt d (k + 1) (p.advance (us ++ ([' '] ++ (op.toList ++ [' '])))) vs r) :
    TierAt d k p (us ++ ([' '] ++ (op.toList ++ ([' '] ++ vs))))
      (.binary op l r (Builder.joined l r)) := by
  have hblank : Layout [' '] := .blank (by decide) .nil
  have hlt := lt_of_mem_signs hop
  interval_cases k
  · exact .more hl hblank hop hblank (by simp) hr
  · exact .more hl hblank hop hblank (by simp) hr
  · exact .more hl hblank hop hblank (by simp) hr

/-! ### Expressions -/

/-- Wherever the text stands, it has the shape of a tree that differs from the given one in places
only. -/
def Shaped (X : Shape) (us : List Char) (t : Tree) : Prop :=
  ∀ before after, ∃ t', X (Position.initial.advance before) us t' ∧
    Like (before ++ (us ++ after)) t t'

lemma Shaped.inside (h : Shaped X us t) (pre post : List Char) (hvs : vs = pre ++ (us ++ post))
    (before after : List Char) :
    ∃ t', X ((Position.initial.advance before).advance pre) us t' ∧
      Like (before ++ (vs ++ after)) t t' := by
  obtain ⟨t', hshape, hlike⟩ := h (before ++ pre) (post ++ after)
  rw [Position.advance_append] at hshape
  exact ⟨t', hshape, by simpa [hvs] using hlike⟩

/-- A number that is written with few enough digits is not too long where it is read. -/
lemma longInteger?_toString {n : ℤ} {span : Span}
    (hn : (toString n.natAbs).length ≤ Reading.maxDigits)
    (hslice : slice text span = (toString n).toList) (m : ℤ) :
    longInteger? text (.literal (.int m) (some span)) = none := by
  have hminus := minusCount_toString n []
  rw [List.append_nil] at hminus
  have hdigits : (toString n).toList.length - minusCount (toString n).toList ≤
      Reading.maxDigits := by
    rw [Nat.toString_eq_repr, ← String.length_toList, Nat.toList_repr] at hn
    rw [hminus, toList_toString]
    split <;> simpa using hn
  simp only [longInteger?, hslice, Nat.not_lt.2 hdigits, if_false, ite_self]

lemma form_toString (n : ℤ) : (Literal.int n).Form (toString n).toList := by
  have hdigits : IsDigits (Nat.toDigits 10 n.natAbs) :=
    ⟨Nat.toDigits_ne_nil, fun c hc => isDigit_of_mem_toDigits hc⟩
  have hform := Literal.Form.int (decide (n < 0)) hdigits
  have htext : minusSign (decide (n < 0)) ++ Nat.toDigits 10 n.natAbs = (toString n).toList := by
    rw [minusSign, toList_toString]
    simp only [decide_eq_true_eq]
  rw [htext, ← integerValue_digits _ hdigits, htext, integerValue_toString] at hform
  exact hform

lemma quotedForm_escape (cs : List Char) : QuotedForm (escape cs) cs := by
  induction cs with
  | nil => exact .nil
  | cons c cs ih =>
    rw [escape]
    split_ifs with hquote hslash hline
    · subst hquote
      exact .escaped (by decide) ih
    · subst hslash
      exact .escaped (by decide) ih
    · subst hline
      exact .escaped (c := 'n') (by decide) ih
    · exact .plain hquote hslash hline ih

lemma form_of_spelling? {w : Literal} {s : String} (h : w.spelling? = some s) :
    w.Form s.toList := by
  cases w with
  | int n =>
    obtain rfl : toString n = s := Option.some.inj h
    exact form_toString n
  | float x => cases h
  | text u =>
    obtain rfl : String.ofList ('"' :: (escape u.toList ++ ['"'])) = s := Option.some.inj h
    have hform := Literal.Form.text (quotedForm_escape u.toList)
    rwa [String.ofList_toList, ← String.toList_ofList (l := '"' :: _)] at hform
  | bool b =>
    obtain rfl : toString b = s := Option.some.inj h
    exact .bool b

lemma shaped_literal {w : Literal} {s : String} {loc : Option Span} (hw : w.Writable)
    (hs : w.spelling? = some s) : Shaped (OperandAt X) s.toList (.literal w loc) := by
  intro before after
  refine ⟨_, .literal (form_of_spelling? hs), rfl, ?_⟩
  rw [Node.walk, List.forall_mem_singleton]
  cases w with
  | int n =>
    obtain rfl : toString n = s := Option.some.inj hs
    exact longInteger?_toString hw (slice_over before _ after) n
  | _ => rfl

lemma shaped_name {x : String} {loc : Option Span} (hx : Node.IsName x) :
    Shaped (OperandAt X) x.toList (.name x loc) := by
  intro before after
  refine ⟨_, .name hx, rfl, ?_⟩
  rw [Node.walk, List.forall_mem_singleton]
  rfl

lemma Shaped.paren (h : Shaped X (row ts) e) (hne : ts ≠ []) :
    Shaped (OperandAt X) (row ("(" :: (ts ++ [")"]))) e := by
  intro before after
  have hrow : row ("(" :: (ts ++ [")"])) =
      "(".toList ++ ([' '] ++ (row ts ++ ([' '] ++ ")".toList))) := by
    simp [spaced_eq_cons_row hne]
  obtain ⟨e', hshape, hlike⟩ := h.inside ("(".toList ++ [' ']) ([' '] ++ ")".toList)
    (hrow.trans (by simp)) before after
  exact ⟨e', hrow ▸ .paren layout_blank hshape layout_blank, hlike⟩

lemma Shaped.binary {op : String} {l r : Tree} (hop : op ∈ signs k)
    (hl : Shaped (TierAt d k) (row ts) l) (hr : Shaped (TierAt d (k + 1)) (row us') r)
    (hne : ts ≠ []) (hne' : us' ≠ []) (loc : Option Span) :
    Shaped (TierAt d k) (row (ts ++ op :: us')) (.binary op l r loc) := by
  intro before after
  have hrow : row (ts ++ op :: us') =
      row ts ++ ([' '] ++ (op.toList ++ ([' '] ++ row us'))) := by
    simp [row_append hne, spaced_eq_cons_row hne']
  obtain ⟨l', hlshape, hllike⟩ := hl.inside [] _ hrow before after
  obtain ⟨r', hrshape, hrlike⟩ := hr.inside (row ts ++ ([' '] ++ (op.toList ++ [' ']))) []
    (hrow.trans (by simp)) before after
  exact ⟨_, hrow ▸ tierAt_binary hop hlshape hrshape, hllike.binary op hrlike _ _⟩

/-- **Expressions**: the text of a spelling has the shape of the expression, with as many levels as
there are parentheses inside one another. -/
theorem shaped_of_spelledExpr {q : ℕ} (h : SpelledExpr q k e ts)
    (he : e.IsExpression Literal.Writable) (hd : q ≤ d) : Shaped (TierAt d k) (row ts) e := by
  have hoperand {d k : ℕ} {us : List Char} {e : Tree} (h : Shaped (OperandAt (ExprAt d)) us e) :
      Shaped (TierAt d k) us e := by
    intro before after
    obtain ⟨e', hshape, hlike⟩ := h before after
    exact ⟨e', tierAt_of_operand hshape, hlike⟩
  induction h generalizing d with
  | literal hs => simpa using hoperand (shaped_literal he hs)
  | name => simpa using hoperand (shaped_name he)
  | @binary _ k j op l r loc ts us hop hkj hl hr ihl ihr =>
    obtain ⟨-, hle, hre⟩ := he
    have hshaped := (ihl hle hd).binary hop (ihr hre hd) hl.ne_nil hr.ne_nil loc
    intro before after
    obtain ⟨e', hshape, hlike⟩ := hshaped before after
    exact ⟨e', tierAt_of_le hkj hshape, hlike⟩
  | @paren q _ e ts h ih =>
    obtain ⟨d, rfl⟩ : ∃ d', d = d' + 1 := ⟨d - 1, by omega⟩
    exact hoperand ((ih he (by omega : q ≤ d)).paren h.ne_nil)

lemma shapedExpr_of_spelledExpr {q : ℕ} (h : SpelledExpr q 0 e ts)
    (he : e.IsExpression Literal.Writable) (hd : q < d) : Shaped (ExprAt d) (row ts) e := by
  obtain ⟨d, rfl⟩ : ∃ d', d = d' + 1 := ⟨d - 1, by omega⟩
  exact shaped_of_spelledExpr h he (by omega : q ≤ d)

/-! ### Statements around their parts -/

section Parts

variable {x y : String} {loc : Option Span}

lemma shaped_declare (hy : y ∈ typeNames) (hx : Node.IsName x) :
    Shaped (StmtForm d S) (row [y, x, ";"]) (.declare y x none loc) :=
  fun _ _ => ⟨_, .declare hy layout_blank (by simp) hx layout_blank (by simp),
    .of_children (by simp [Node.bare]) rfl .nil⟩

lemma Shaped.declareAs (hv : Shaped (ExprAt d) (row ts) v) (hne : ts ≠ []) (hy : y ∈ typeNames)
    (hx : Node.IsName x) :
    Shaped (StmtForm d S) (row (y :: x :: "=" :: (ts ++ [";"]))) (.declare y x (some v) loc) := by
  intro before after
  have hrow : row (y :: x :: "=" :: (ts ++ [";"])) = y.toList ++ ([' '] ++ (x.toList ++ ([' '] ++
      ("=".toList ++ ([' '] ++ (row ts ++ ([' '] ++ ";".toList))))))) := by
    simp [spaced_eq_cons_row hne]
  obtain ⟨v', hshape, hlike⟩ := hv.inside (y.toList ++ ([' '] ++ (x.toList ++ ([' '] ++
    ("=".toList ++ [' ']))))) ([' '] ++ ";".toList) (hrow.trans (by simp)) before after
  refine ⟨_, .declareAs hy layout_blank (by simp) hx layout_blank layout_blank layout_blank hshape
    hrow, .of_children ?_ rfl ?_⟩
  · rw [Node.bare, Node.bare, hlike.bare_eq]
  · exact .cons hlike .nil

lemma Shaped.assign (hv : Shaped (ExprAt d) (row ts) v) (hne : ts ≠ []) (hx : Node.IsName x) :
    Shaped (StmtForm d S) (row (x :: "=" :: (ts ++ [";"]))) (.assign x v loc) := by
  intro before after
  have hrow : row (x :: "=" :: (ts ++ [";"])) = x.toList ++ ([' '] ++ ("=".toList ++ ([' '] ++
      (row ts ++ ([' '] ++ ";".toList))))) := by
    simp [spaced_eq_cons_row hne]
  obtain ⟨v', hshape, hlike⟩ := hv.inside (x.toList ++ ([' '] ++ ("=".toList ++ [' '])))
    ([' '] ++ ";".toList) (hrow.trans (by simp)) before after
  refine ⟨_, .assign hx layout_blank layout_blank layout_blank hshape hrow, .of_children ?_ rfl ?_⟩
  · rw [Node.bare, Node.bare, hlike.bare_eq]
  · exact .cons hlike .nil

lemma shaped_ret (hd : 0 < d) : Shaped (StmtForm d S) (row ["return", ";"]) (.ret none loc) :=
  fun _ _ => ⟨_, .ret hd layout_blank (by simp),
    .of_children (by simp [Node.bare]) rfl .nil⟩

lemma Shaped.ret (hv : Shaped (ExprAt d) (row ts) v) (hne : ts ≠ []) :
    Shaped (StmtForm d S) (row ("return" :: (ts ++ [";"]))) (.ret (some v) loc) := by
  intro before after
  have hrow : row ("return" :: (ts ++ [";"])) =
      "return".toList ++ ([' '] ++ (row ts ++ ([' '] ++ ";".toList))) := by
    simp [spaced_eq_cons_row hne]
  obtain ⟨v', hshape, hlike⟩ := hv.inside ("return".toList ++ [' ']) ([' '] ++ ";".toList)
    (hrow.trans (by simp)) before after
  refine ⟨_, .retValue layout_blank wordEnd_blank hshape layout_blank hrow, .of_children ?_ rfl ?_⟩
  · rw [Node.bare, Node.bare, hlike.bare_eq]
  · exact .cons hlike .nil

/-- A condition and a body, in front of what still belongs to the statement. -/
lemma Shaped.guard (hc : Shaped X (row ts) c) (hb : Shaped S (row us') b) (hne : ts ≠ [])
    (hne' : us' ≠ []) (w : String) (post : List Char)
    (hvs : vs = row (w :: "(" :: (ts ++ ")" :: us')) ++ post) (before after : List Char) :
    ∃ c' b', GuardAt w X S (Position.initial.advance before)
        (row (w :: "(" :: (ts ++ ")" :: us'))) c' b' ∧
      Like (before ++ (vs ++ after)) c c' ∧ Like (before ++ (vs ++ after)) b b' := by
  have hrow : row (w :: "(" :: (ts ++ ")" :: us')) = w.toList ++ ([' '] ++ ("(".toList ++ ([' '] ++
      (row ts ++ ([' '] ++ (")".toList ++ ([' '] ++ row us'))))))) := by
    simp [spaced_eq_cons_row hne, spaced_eq_cons_row hne']
  rw [hrow] at hvs ⊢
  obtain ⟨c', hcshape, hclike⟩ := hc.inside (w.toList ++ ([' '] ++ ("(".toList ++ [' '])))
    ([' '] ++ (")".toList ++ ([' '] ++ row us')) ++ post) (hvs.trans (by simp)) before after
  obtain ⟨b', hbshape, hblike⟩ := hb.inside (w.toList ++ ([' '] ++ ("(".toList ++ ([' '] ++
    (row ts ++ ([' '] ++ (")".toList ++ [' ']))))))) post (hvs.trans (by simp)) before after
  exact ⟨c', b', .mk layout_blank layout_blank hcshape layout_blank layout_blank hbshape, hclike,
    hblike⟩

lemma Shaped.branch (hc : Shaped (ExprAt d) (row ts) c) (hb : Shaped S (row us') b) (hne : ts ≠ [])
    (hne' : us' ≠ []) :
    Shaped (StmtForm d S) (row ("if" :: "(" :: (ts ++ ")" :: us'))) (.branch c b none loc) := by
  intro before after
  obtain ⟨c', b', hguard, hc', hb'⟩ :=
    hc.guard hb hne hne' "if" [] (List.append_nil _).symm before after
  refine ⟨_, .branch hguard, .of_children ?_ rfl ?_⟩
  · rw [Node.bare, Node.bare, hc'.bare_eq, hb'.bare_eq]
  · exact .cons hc' (.cons hb' .nil)

lemma Shaped.branchElse {vs' : List String} (hc : Shaped (ExprAt d) (row ts) c)
    (hb : Shaped S (row us') b) (he : Shaped S (row vs') e) (hne : ts ≠ []) (hne' : us' ≠ [])
    (hne₂ : vs' ≠ []) (hopen : ¬ b.EndsOpen) :
    Shaped (StmtForm d S) (row ("if" :: "(" :: (ts ++ ")" :: (us' ++ "else" :: vs'))))
      (.branch c b (some e) loc) := by
  intro before after
  have hrow : row ("if" :: "(" :: (ts ++ ")" :: (us' ++ "else" :: vs'))) =
      row ("if" :: "(" :: (ts ++ ")" :: us')) ++
        ([' '] ++ ("else".toList ++ ([' '] ++ row vs'))) := by
    simp [spaced_eq_cons_row hne₂]
  obtain ⟨c', b', hguard, hc', hb'⟩ := hc.guard hb hne hne' "if" _ hrow before after
  obtain ⟨e', heshape, he'⟩ := he.inside (row ("if" :: "(" :: (ts ++ ")" :: us')) ++
    ([' '] ++ ("else".toList ++ [' ']))) [] (hrow.trans (by simp)) before after
  have hopen' : ¬ b'.EndsOpen := by rwa [← Node.endsOpen_bare, hb'.bare_eq, Node.endsOpen_bare]
  refine ⟨_, .branchElse hguard hopen' layout_blank layout_blank wordEnd_blank heshape hrow,
    .of_children ?_ rfl ?_⟩
  · rw [Node.bare, Node.bare, hc'.bare_eq, hb'.bare_eq, he'.bare_eq]
  · exact .cons hc' (.cons hb' (.cons he' .nil))

lemma Shaped.whileLoop (hc : Shaped (ExprAt d) (row ts) c) (hb : Shaped S (row us') b)
    (hne : ts ≠ []) (hne' : us' ≠ []) :
    Shaped (StmtForm d S) (row ("while" :: "(" :: (ts ++ ")" :: us'))) (.whileLoop c b loc) := by
  intro before after
  obtain ⟨c', b', hguard, hc', hb'⟩ :=
    hc.guard hb hne hne' "while" [] (List.append_nil _).symm before after
  refine ⟨_, .whileLoop hguard, .of_children ?_ rfl ?_⟩
  · rw [Node.bare, Node.bare, hc'.bare_eq, hb'.bare_eq]
  · exact .cons hc' (.cons hb' .nil)

end Parts

/-! ### Statements in a row -/

def ShapedRow (R : Position → List Char → List Tree → Prop) (us : List Char) (ns : List Tree) :
    Prop :=
  ∀ before after, ∃ ns', R (Position.initial.advance before) us ns' ∧
    List.Forall₂ (Like (before ++ (us ++ after))) ns ns'

def ShapedPieces (S : Shape) (pieces : List (Tree × List String)) : Prop :=
  ∀ p ∈ pieces, p.2 ≠ [] ∧ Shaped S (row p.2) p.1

variable {pieces : List (Tree × List String)}

lemma ShapedRow.cons {ns : List Tree} (g : List Char) (hg : Layout g) (hn : Shaped S us n)
    (h : ShapedRow (RowAt S) vs ns) : ShapedRow (RowAt S) (g ++ (us ++ vs)) (n :: ns) := by
  intro before after
  obtain ⟨n', hshape, hlike⟩ := hn.inside g vs rfl before after
  obtain ⟨ns', hrow, hlikes⟩ := h (before ++ (g ++ us)) after
  rw [Position.advance_append] at hrow
  have htext : (before ++ (g ++ us)) ++ (vs ++ after) = before ++ ((g ++ (us ++ vs)) ++ after) := by
    simp
  exact ⟨_, .cons hg hshape hrow, .cons hlike (htext ▸ hlikes)⟩

lemma shapedRow_spaced (h : ShapedPieces S pieces) :
    ShapedRow (RowAt S) (spaced (pieces.flatMap Prod.snd)) (pieces.map Prod.fst) := by
  induction pieces with
  | nil => exact fun _ _ => ⟨[], .nil, .nil⟩
  | cons p ps ih =>
    obtain ⟨⟨hne, hp⟩, hps⟩ := List.forall_mem_cons.1 h
    have htext : spaced ((p :: ps).flatMap Prod.snd) =
        [' '] ++ (row p.2 ++ spaced (ps.flatMap Prod.snd)) := by
      simp [spaced_eq_cons_row hne]
    rw [htext]
    exact (ih hps).cons _ layout_blank hp

lemma shapedRow_row (h : ShapedPieces S pieces) :
    ShapedRow (RowAt S) (row (pieces.flatMap Prod.snd)) (pieces.map Prod.fst) := by
  cases pieces with
  | nil => exact fun _ _ => ⟨[], .nil, .nil⟩
  | cons p ps =>
    obtain ⟨⟨hne, hp⟩, hps⟩ := List.forall_mem_cons.1 h
    rw [List.flatMap_cons, row_append hne]
    exact (shapedRow_spaced hps).cons [] .nil hp

lemma shapedRow_braced (h : ShapedPieces S pieces) :
    ShapedRow (BracedAt S) (row ("\x7b" :: (pieces.flatMap Prod.snd ++ ["\x7d"])))
      (pieces.map Prod.fst) := by
  intro before after
  have htext : row ("\x7b" :: (pieces.flatMap Prod.snd ++ ["\x7d"])) =
      "\x7b".toList ++ (spaced (pieces.flatMap Prod.snd) ++ ([' '] ++ "\x7d".toList)) := by
    simp
  obtain ⟨ns, hrow, hlikes⟩ := shapedRow_spaced h (before ++ "\x7b".toList)
    (([' '] ++ "\x7d".toList) ++ after)
  rw [Position.advance_append] at hrow
  rw [htext]
  exact ⟨ns, .mk hrow layout_blank, by simpa using hlikes⟩

/-- **Statements**: the text of a spelling has the shape of the statement, if there are enough
levels for its statements and parentheses. -/
theorem shaped_of_spelled {q : ℕ} (h : Spelled q n ts) (hn : n.IsStatement Literal.Writable)
    (hd : q + n.levels ≤ d) : Shaped (StmtAt d) (row ts) n := by
  induction h generalizing d with
  | declare =>
    obtain ⟨d, rfl⟩ : ∃ d', d = d' + 1 := ⟨d - 1, by rw [Node.levels] at hd; omega⟩
    exact shaped_declare hn.1 hn.2
  | declareAs hv =>
    have hd : q + 2 ≤ d := hd
    obtain ⟨d, rfl⟩ : ∃ d', d = d' + 1 := ⟨d - 1, by omega⟩
    exact (shapedExpr_of_spelledExpr hv hn.2.2 (by omega)).declareAs hv.ne_nil hn.1 hn.2.1
  | assign hv =>
    have hd : q + 2 ≤ d := hd
    obtain ⟨d, rfl⟩ : ∃ d', d = d' + 1 := ⟨d - 1, by omega⟩
    exact (shapedExpr_of_spelledExpr hv hn.2 (by omega)).assign hv.ne_nil hn.1
  | @branch c b loc ts us hc hb ih =>
    have hpos := b.levels_pos
    rw [Node.levels] at hd
    obtain ⟨d, rfl⟩ : ∃ d', d = d' + 1 := ⟨d - 1, by omega⟩
    exact (shapedExpr_of_spelledExpr hc hn.1 (by omega)).branch (ih hn.2 (by omega)) hc.ne_nil
      (hb.ne_nil hn.2)
  | @branchElse c b e loc ts us vs hc hb he ihb ihe =>
    obtain ⟨hce, hbs, hopen, hes⟩ := hn
    have hpos := b.levels_pos
    rw [Node.levels] at hd
    obtain ⟨d, rfl⟩ : ∃ d', d = d' + 1 := ⟨d - 1, by omega⟩
    exact (shapedExpr_of_spelledExpr hc hce (by omega)).branchElse (ihb hbs (by omega))
      (ihe hes (by omega)) hc.ne_nil (hb.ne_nil hbs) (he.ne_nil hes) hopen
  | @whileLoop c b loc ts us hc hb ih =>
    have hpos := b.levels_pos
    rw [Node.levels] at hd
    obtain ⟨d, rfl⟩ : ∃ d', d = d' + 1 := ⟨d - 1, by omega⟩
    exact (shapedExpr_of_spelledExpr hc hn.1 (by omega)).whileLoop (ih hn.2 (by omega)) hc.ne_nil
      (hb.ne_nil hn.2)
  | ret =>
    have hd : q + 2 ≤ d := hd
    obtain ⟨d, rfl⟩ : ∃ d', d = d' + 1 := ⟨d - 1, by omega⟩
    exact shaped_ret (by omega)
  | retValue hv =>
    have hd : q + 2 ≤ d := hd
    obtain ⟨d, rfl⟩ : ∃ d', d = d' + 1 := ⟨d - 1, by omega⟩
    exact (shapedExpr_of_spelledExpr hv hn (by omega)).ret hv.ne_nil
  | @block pieces loc h ih =>
    have hall := Node.isStatements_iff.1 hn
    rw [Node.levels] at hd
    obtain ⟨d, rfl⟩ : ∃ d', d = d' + 1 := ⟨d - 1, by omega⟩
    obtain ⟨hpos, hlevels⟩ := Node.levelsAll_le_iff.1 (by omega :
      Node.levelsAll (pieces.map Prod.fst) ≤ d - q)
    have hpieces : ShapedPieces (StmtAt d) pieces := by
      intro p hp
      have hmem : p.1 ∈ pieces.map Prod.fst := List.mem_map_of_mem hp
      have hle := hlevels _ hmem
      exact ⟨(h p hp).ne_nil (hall _ hmem), ih p hp (hall _ hmem) (by omega)⟩
    intro before after
    obtain ⟨ns, hshape, hlikes⟩ := shapedRow_braced hpieces before after
    refine ⟨_, .block (by omega) hshape, .of_children ?_ rfl hlikes⟩
    rw [Node.bare, Node.bare, bareAll_eq_of_like hlikes]
  | program => exact absurd hn id

/-! ### Programs -/

/-- A text with the shape of statements is read as their program, but for places. -/
lemma exists_program_of_shapedRow {ns : List Tree} (loc : Option Span) (hd : 0 < d)
    (h : ShapedRow (BodyAt d) us ns) (hsolid : Solid us) :
    ∃ t, program d (.within us 0) = .accept t (.within us us.length) ∧
      Like us (.program ns loc) t := by
  obtain ⟨ns', hbody, hlikes⟩ := h [] []
  rw [List.nil_append, List.append_nil] at hlikes
  have htext : us = [] ++ (us ++ []) := by simp
  have haccept := program_of_body hd .nil hbody (by simpa using hsolid) .nil htext
  rw [Cursor.ofText_eq_within] at haccept
  refine ⟨_, haccept, .of_children ?_ rfl hlikes⟩
  rw [Node.bare, Node.bare, bareAll_eq_of_like hlikes]

lemma solid_row (h : ShapedPieces (StmtAt d) pieces) : Solid (row (pieces.flatMap Prod.snd)) := by
  cases pieces with
  | nil => exact solid_nil
  | cons p ps =>
    obtain ⟨⟨hne, hp⟩, -⟩ := List.forall_mem_cons.1 h
    obtain ⟨n, hshape, -⟩ := hp [] []
    rw [List.flatMap_cons, row_append hne]
    exact ((firm_stmt hshape).append _).solid

/-- With enough levels the rules take all of the text of a spelling. -/
lemma exists_program_of_spelled {q : ℕ} {p : Tree} (h : Spelled q p ts)
    (hp : p.IsProgram Literal.Writable) (hd : q + p.height ≤ d) :
    ∃ t, program d (.within (row ts) 0) = .accept t (.within (row ts) (row ts).length) ∧
      Like (row ts) p t := by
  cases h with
  | @program pieces loc h =>
    have hall := Node.isStatements_iff.1 hp
    rw [Node.height] at hd
    have hpieces : ShapedPieces (StmtAt d) pieces := by
      intro p hp
      have hmem : p.1 ∈ pieces.map Prod.fst := List.mem_map_of_mem hp
      have hheight := Node.height_le_heightAll hmem
      have hlevels := p.1.levels_le_height
      exact ⟨(h p hp).ne_nil (hall _ hmem), shaped_of_spelled (h p hp) (hall _ hmem) (by omega)⟩
    refine exists_program_of_shapedRow loc (by omega) (fun before after => ?_) (solid_row hpieces)
    obtain ⟨ns, hrow, hlikes⟩ := shapedRow_row hpieces before after
    exact ⟨ns, Or.inr hrow, hlikes⟩
  | _ => exact absurd hp id

/-- **Parsing undoes printing**: a text made from a spelling of a program is read as the program up
to places, or it is refused for its nesting. It is read if the tree is no higher than the passes
accept and its height together with the parentheses of the spelling stays within the levels of the
grammar. -/
theorem parse_spelled {depth q : ℕ} {p : Tree} {ts : List String}
    (hp : p.IsProgram Literal.Writable) (h : Spelled q p ts) :
    ((∃ t, parse depth (" ".intercalate ts) = .ok t ∧ t.bare = p.bare) ∨
      ∃ fault, parse depth (" ".intercalate ts) = .error fault ∧
        fault.diagnostic.code = .nestingTooDeep) ∧
    (p.height ≤ Node.maxLevels → q + p.height ≤ depth + 1 →
      ∃ t, parse depth (" ".intercalate ts) = .ok t ∧ t.bare = p.bare) := by
  have htext := toList_intercalate ts
  constructor
  · -- with more levels the text is read, so with `depth` it is read alike or the rules give up
    obtain ⟨t, ht, hlike⟩ := exists_program_of_spelled h hp (le_max_right (depth + 1) _)
    have hbelow := below_program (le_max_left (depth + 1) (q + p.height)) (.within (row ts) 0)
    rcases hbelow with hdeep | hsame
    · exact Or.inr ⟨.tooDeep, parse_of_tooDeep (htext ▸ hdeep), rfl⟩
    · rw [parse_of_accept htext (hsame.trans ht)]
      rcases accepted_of_like hlike with ⟨hok, -⟩ | ⟨location, herror, -⟩
      · exact Or.inl ⟨t, hok, hlike.bare_eq⟩
      · exact Or.inr ⟨.nesting location, herror, rfl⟩
  · intro hlevels hdepth
    obtain ⟨t, ht, hlike⟩ := exists_program_of_spelled h hp hdepth
    rw [parse_of_accept htext ht]
    rcases accepted_of_like hlike with ⟨hok, -⟩ | ⟨location, -, hhigh⟩
    · exact ⟨t, hok, hlike.bare_eq⟩
    · omega

def product : Tree × List String :=
  (.declare "int" "main" (some (.binary "*"
    (.binary "-" (.name "a" none) (.literal (.int (-1)) none) none)
    (.literal (.int 2) none) none)) none,
  ["int", "main", "=", "(", "a", "-", "-1", ")", "*", "(", "2", ")", ";"])

def fallback : Tree × List String :=
  (.branch (.binary "==" (.name "a" none) (.literal (.text "\"") none) none) (.block [] none)
    (some (.whileLoop (.literal (.bool true) none) (.ret none none) none)) none,
  ["if", "(", "a", "==", "\"\\\"\"", ")", "\x7b", "\x7d", "else", "while", "(", "true", ")",
    "return", ";"])

lemma product_spelled : Spelled 1 product.1 product.2 := by
  have hdifference : SpelledExpr 0 0 (.binary "-" (.name "a" none) (.literal (.int (-1)) none) none)
      (["a"] ++ "-" :: ["-1"]) :=
    .binary (j := 1) (by decide) (by decide) .name (.literal rfl)
  have hfactor : SpelledExpr 0 0 (.literal (.int 2) none) ["2"] := .literal rfl
  exact .declareAs (.binary (j := 2) (by decide) (by decide) hdifference.paren hfactor.paren)

lemma fallback_spelled : Spelled 1 fallback.1 fallback.2 := by
  have hquote : SpelledExpr 1 0
      (.binary "==" (.name "a" none) (.literal (.text "\"") none) none)
      (["a"] ++ "==" :: ["\"\\\"\""]) :=
    .binary (j := 0) (by decide) (by decide) .name (.literal rfl)
  have hempty : Spelled 1 (.block ([].map Prod.fst) none)
      ("\x7b" :: ([].flatMap Prod.snd ++ ["\x7d"])) :=
    .block (by simp)
  have htrue : SpelledExpr 1 0 (.literal (.bool true) none) ["true"] := .literal rfl
  exact .branchElse hquote hempty (.whileLoop htrue .ret)

/-- A text with both statements is read back. -/
theorem product_fallback_parse :
    (Node.program [product.1, fallback.1] none).IsProgram Literal.Writable ∧
      Spelled 1 (.program [product.1, fallback.1] none) (product.2 ++ fallback.2) ∧
      ∃ t, parse 5 (" ".intercalate (product.2 ++ fallback.2)) = .ok t ∧
        t.bare = (Node.program [product.1, fallback.1] none).bare := by
  have hprogram : (Node.program [product.1, fallback.1] none).IsProgram Literal.Writable := by
    have ha : Node.IsName "a" := by decide
    refine ⟨⟨by decide, by decide, by decide, ⟨by decide, ha, ?_⟩, ?_⟩,
      ⟨⟨by decide, ha, trivial⟩, trivial, id, trivial, trivial⟩, trivial⟩
    · show (toString (1 : ℕ)).length ≤ Reading.maxDigits
      decide
    · show (toString (2 : ℕ)).length ≤ Reading.maxDigits
      decide
  have hspelled : Spelled 1 (.program ([product, fallback].map Prod.fst) none)
      ([product, fallback].flatMap Prod.snd) := by
    refine .program ?_
    simpa using ⟨product_spelled, fallback_spelled⟩
  have hheight : (Node.program [product.1, fallback.1] none).height ≤ Node.maxLevels := by decide
  exact ⟨hprogram, hspelled, (parse_spelled hprogram hspelled).2 hheight (by decide)⟩

end Grammar

end Primer
