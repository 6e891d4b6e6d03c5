import Mathlib.Tactic
import Primer.Proofs.AcceptedProgram
import Primer.Proofs.Spelling
import Primer.Tree.SExpr

/-!
What the dump of a tree tells.

The text of an S-expression has no marks for where its parts end, other than what the parts are made
of: a symbol or a number ends at a blank or a parenthesis, a text at its closing quote. Where no
symbol looks like a number, two S-expressions with the same text are the same. From the S-expression
of a program its tree can be built again, except that a missing value and the name `nil` look alike.
-/

namespace Primer

namespace SExpr

open Lexeme Grammar

/-! ### S-expressions with a text of their own -/

/-- A character that goes on with a symbol or a number. -/
def goesOn (c : Char) : Bool := !marked.contains c

/-- A symbol that is written as it is and looks like no number. -/
structure IsSymbol (s : String) : Prop where
  ne_nil : s.toList ≠ []
  unmarked : s.toList.all goesOn
  no_number : ∀ n : ℤ, s ≠ toString n

/-- All symbols look like symbols, and all numbers are whole. -/
inductive Clear : SExpr → Prop
  | symbol {s : String} (h : IsSymbol s) : Clear (.symbol s)
  | text {s : String} : Clear (.text s)
  | number {n : ℤ} : Clear (.number (.int n))
  | list {xs : List SExpr} (h : ∀ x ∈ xs, Clear x) : Clear (.list xs)

variable {x y : SExpr} {xs ys : List SExpr} {r s u v : List Char} {c : Char}

lemma renderAll_eq_map (xs : List SExpr) : renderAll xs = xs.map render := by
  induction xs with
  | nil => rfl
  | cons x xs ih => simp [renderAll, ih]

lemma toList_render_list (xs : List SExpr) :
    (render (.list xs)).toList = '(' :: (row (xs.map render) ++ [')']) := by
  rw [render, String.toList_append, String.toList_append, toList_intercalate, renderAll_eq_map]
  rfl

lemma toList_render_text (s : String) :
    (render (.text s)).toList = '"' :: (s.toList.flatMap textChar ++ ['"']) := by
  rw [render, String.toList_ofList]

lemma toList_render_symbol {s : String} (h : IsSymbol s) :
    (render (.symbol s)).toList = s.toList := by
  have hchar : ∀ c ∈ s.toList, symbolChar c = [c] := by
    intro c hc
    have hgoes : marked.contains c = false := by
      simpa [goesOn] using List.all_eq_true.1 h.unmarked c hc
    rw [symbolChar, hgoes]
    rfl
  rw [render, String.toList_ofList, List.flatMap_congr hchar, List.flatMap_singleton']

/-! ### Texts -/

/-- The first character of a text between quotes, read back, and what follows it. -/
def readChar? : List Char → Option (Char × List Char)
  | '\\' :: '\\' :: r => some ('\\', r)
  | '\\' :: '"' :: r => some ('"', r)
  | '\\' :: 'b' :: r => some ('\x08', r)
  | '\\' :: 'f' :: r => some ('\x0c', r)
  | '\\' :: 'n' :: r => some ('\n', r)
  | '\\' :: 'r' :: r => some ('\r', r)
  | '\\' :: 't' :: r => some ('\t', r)
  | '"' :: _ => none
  | c :: r => some (c, r)
  | [] => none

lemma readChar?_textChar (c : Char) (r : List Char) :
    readChar? (textChar c ++ r) = some (c, r) := by
  unfold textChar
  split_ifs <;> simp_all [readChar?]

lemma text_inj (h : u.flatMap textChar ++ '"' :: r = v.flatMap textChar ++ '"' :: s) :
    u = v ∧ r = s := by
  -- where one text ends, no character of the other can be read
  have hquote : ∀ {c : Char} {u r s : List Char},
      (c :: u).flatMap textChar ++ r ≠ '"' :: s := by
    intro c u r s heq
    have hread := readChar?_textChar c (u.flatMap textChar ++ r)
    rw [← List.append_assoc, ← List.flatMap_cons, heq] at hread
    cases hread
  induction u generalizing v with
  | nil =>
    cases v with
    | nil => exact ⟨rfl, (List.cons.inj h).2⟩
    | cons d v => exact absurd h.symm hquote
  | cons c u ih =>
    cases v with
    | nil => exact absurd h hquote
    | cons d v =>
      rw [List.flatMap_cons, List.flatMap_cons, List.append_assoc, List.append_assoc] at h
      have hread := congrArg readChar? h
      rw [readChar?_textChar, readChar?_textChar, Option.some_inj] at hread
      obtain ⟨rfl, hrest⟩ := Prod.mk.inj hread
      obtain ⟨rfl, hrs⟩ := ih hrest
      exact ⟨rfl, hrs⟩

/-! ### One text, one S-expression -/

def Breaks (r : List Char) : Prop := r.head?.any goesOn = false

lemma breaks_cons {r : List Char} (hc : goesOn c = false) : Breaks (c :: r) := by
  simpa [Breaks] using hc

/-- A class of characters without marked ones goes on with a symbol. -/
lemma goesOn_of_class {f : Char → Bool} (hf : marked.all fun m => !f m) (hc : f c) : goesOn c := by
  rw [goesOn, Bool.not_eq_true', ← Bool.not_eq_true, List.contains_iff_mem]
  intro hmem
  have hfree := List.all_eq_true.1 hf c hmem
  rw [hc] at hfree
  cases hfree

lemma goesOn_of_mem_toString {n : ℤ} (hc : c ∈ (toString n).toList) : goesOn c := by
  rw [toList_toString, List.mem_append] at hc
  rcases hc with hc | hc
  · split at hc
    · obtain rfl := List.mem_singleton.1 hc
      decide
    · simp at hc
  · exact goesOn_of_class (by decide) (isDigit_of_mem_toDigits hc)

lemma toString_ne_nil (n : ℤ) : (toString n).toList ≠ [] := by
  rw [toList_toString]
  simp [Nat.toDigits_ne_nil]

/-- An S-expression that is one word: nothing in its text ends it. -/
structure IsAtom (x : SExpr) : Prop where
  ne_nil : x.render.toList ≠ []
  run : ∀ c ∈ x.render.toList, goesOn c

lemma isAtom_symbol {s : String} (h : IsSymbol s) : IsAtom (.symbol s) := by
  have htext := toList_render_symbol h
  refine ⟨?_, ?_⟩
  · rw [htext]
    exact h.ne_nil
  · rw [htext]
    exact List.all_eq_true.1 h.unmarked

lemma isAtom_number (n : ℤ) : IsAtom (.number (.int n)) :=
  ⟨toString_ne_nil n, fun _ => goesOn_of_mem_toString⟩

/-- A character that ends a word does not begin one. -/
lemma IsAtom.ne_cons (h : IsAtom x) (hc : goesOn c = false) : x.render.toList ++ r ≠ c :: s := by
  intro heq
  obtain ⟨d, u, hd⟩ := List.exists_cons_of_ne_nil h.ne_nil
  have hgoes := h.run d (by simp [hd])
  rw [hd] at heq
  rw [(List.cons.inj heq).1, hc] at hgoes
  cases hgoes

lemma IsAtom.inj (hx : IsAtom x) (hy : IsAtom y) (hr : Breaks r) (hs : Breaks s)
    (h : x.render.toList ++ r = y.render.toList ++ s) : x.render = y.render ∧ r = s := by
  obtain ⟨htext, hrest⟩ := run_inj hx.run hy.run hr hs h
  exact ⟨String.toList_inj.1 htext, hrest⟩

lemma render_symbol {s : String} (h : IsSymbol s) : render (.symbol s) = s :=
  String.toList_inj.1 (toList_render_symbol h)

lemma toString_inj {m n : ℤ} (h : toString m = toString n) : m = n := by
  rw [← integerValue_toString m, h, integerValue_toString]

/-- What is written for `x`, in front of a text that ends it, is written for nothing else. -/
def Told (x : SExpr) : Prop := ∀ y r s, Clear y → Breaks r → Breaks s →
  x.render.toList ++ r = y.render.toList ++ s → x = y ∧ r = s

lemma told_atom (hx : IsAtom x) (hsymbol : ∀ s, IsSymbol s → x.render = s → x = .symbol s)
    (hnumber : ∀ n : ℤ, x.render = toString n → x = .number (.int n)) : Told x := by
  intro y r s hy hr hs heq
  cases hy with
  | symbol h =>
    obtain ⟨htext, hrest⟩ := hx.inj (isAtom_symbol h) hr hs heq
    exact ⟨hsymbol _ h (htext.trans (render_symbol h)), hrest⟩
  | @number n =>
    obtain ⟨htext, hrest⟩ := hx.inj (isAtom_number n) hr hs heq
    exact ⟨hnumber n htext, hrest⟩
  | text =>
    rw [toList_render_text] at heq
    exact absurd heq (hx.ne_cons (by decide))
  | list =>
    rw [toList_render_list] at heq
    exact absurd heq (hx.ne_cons (by decide))

lemma told_symbol {s : String} (h : IsSymbol s) : Told (.symbol s) := by
  refine told_atom (isAtom_symbol h) (fun s' _ htext => ?_) fun n htext => ?_
  · rw [← htext, render_symbol h]
  · exact absurd ((render_symbol h).symm.trans htext) (h.no_number n)

lemma told_number (n : ℤ) : Told (.number (.int n)) := by
  refine told_atom (isAtom_number n) (fun s h htext => ?_) fun m htext => ?_
  · exact absurd htext.symm (h.no_number n)
  · rw [toString_inj htext]

lemma told_text (t : String) : Told (.text t) := by
  intro y r s hy hr hs heq
  rw [toList_render_text] at heq
  cases hy with
  | symbol h => exact absurd heq.symm ((isAtom_symbol h).ne_cons (by decide))
  | @number n => exact absurd heq.symm ((isAtom_number n).ne_cons (by decide))
  | @text t' =>
    rw [toList_render_text] at heq
    obtain ⟨htext, hrest⟩ := text_inj (by simpa using heq)
    exact ⟨congrArg _ (String.toList_inj.1 htext), hrest⟩
  | list =>
    rw [toList_render_list] at heq
    simp at heq

lemma breaks_spaced (xs : List SExpr) (r : List Char) :
    Breaks (spaced (xs.map render) ++ ')' :: r) := by
  cases xs with
  | nil => exact breaks_cons (by decide)
  | cons x xs => exact breaks_cons (by decide)

lemma spaced_inj (hx : ∀ x ∈ xs, Told x) (hy : ∀ y ∈ ys, Clear y)
    (h : spaced (xs.map render) ++ ')' :: r = spaced (ys.map render) ++ ')' :: s) :
    xs = ys ∧ r = s := by
  induction xs generalizing ys with
  | nil =>
    cases ys with
    | nil => exact ⟨rfl, (List.cons.inj h).2⟩
    | cons y ys => simp at h
  | cons x xs ih =>
    cases ys with
    | nil => simp at h
    | cons y ys =>
      rw [List.forall_mem_cons] at hx hy
      have hnext : x.render.toList ++ (spaced (xs.map render) ++ ')' :: r) =
          y.render.toList ++ (spaced (ys.map render) ++ ')' :: s) := by simpa using h
      obtain ⟨rfl, hrest⟩ := hx.1 y _ _ hy.1 (breaks_spaced xs r) (breaks_spaced ys s) hnext
      obtain ⟨rfl, hrs⟩ := ih hx.2 hy.2 hrest
      exact ⟨rfl, hrs⟩

/-- No S-expression begins with a closing parenthesis. -/
lemma Clear.ne_close (h : Clear x) : x.render.toList ++ r ≠ ')' :: s := by
  cases h with
  | symbol h => exact (isAtom_symbol h).ne_cons (by decide)
  | @number n => exact (isAtom_number n).ne_cons (by decide)
  | text => simp [toList_render_text]
  | list => simp [toList_render_list]

lemma row_inj (hclear : ∀ x ∈ xs, Clear x) (hx : ∀ x ∈ xs, Told x) (hy : ∀ y ∈ ys, Clear y)
    (h : row (xs.map render) ++ ')' :: r = row (ys.map render) ++ ')' :: s) :
    xs = ys ∧ r = s := by
  cases xs with
  | nil =>
    cases ys with
    | nil => exact ⟨rfl, (List.cons.inj h).2⟩
    | cons y ys =>
      rw [List.forall_mem_cons] at hy
      exact absurd (by simpa [row] using h.symm) hy.1.ne_close
  | cons x xs =>
    cases ys with
    | nil =>
      rw [List.forall_mem_cons] at hclear
      exact absurd (by simpa [row] using h) hclear.1.ne_close
    | cons y ys =>
      refine spaced_inj (r := r) (s := s) hx hy ?_
      simpa using h

lemma told_list (hclear : ∀ x ∈ xs, Clear x) (hx : ∀ x ∈ xs, Told x) : Told (.list xs) := by
  intro y r s hy hr hs heq
  rw [toList_render_list] at heq
  cases hy with
  | symbol h => exact absurd heq.symm ((isAtom_symbol h).ne_cons (by decide))
  | @number n => exact absurd heq.symm ((isAtom_number n).ne_cons (by decide))
  | text =>
    rw [toList_render_text] at heq
    simp at heq
  | @list ys hys =>
    rw [toList_render_list] at heq
    obtain ⟨rfl, hrest⟩ := row_inj (r := r) (s := s) hclear hx hys (by simpa using heq)
    exact ⟨rfl, hrest⟩

/-- **One text, one S-expression.** -/
theorem render_inj (hx : Clear x) (hy : Clear y) (h : x.render = y.render) : x = y := by
  have htold : Told x := by
    clear h
    induction hx with
    | symbol h => exact told_symbol h
    | @text s => exact told_text s
    | @number n => exact told_number n
    | list h ih => exact told_list h ih
  exact (htold y [] [] hy rfl rfl (by rw [h])).1

end SExpr

def Literal.IsExact (v : Literal) : Prop := ∀ x, v ≠ .float x

/-! ### Missing values -/

namespace Node

open Lexeme Grammar SExpr

def missing : Tree := .name "nil" none

mutual

def filled : Tree → Tree
  | .literal v loc => .literal v loc
  | .name x loc => .name x loc
  | .binary op l r loc => .binary op l.filled r.filled loc
  | .declare t x none loc => .declare t x (some missing) loc
  | .declare t x (some v) loc => .declare t x (some v.filled) loc
  | .assign x v loc => .assign x v.filled loc
  | .branch c b none loc => .branch c.filled b.filled none loc
  | .branch c b (some e) loc => .branch c.filled b.filled (some e.filled) loc
  | .whileLoop c b loc => .whileLoop c.filled b.filled loc
  | .forLoop b loc => .forLoop b.filled loc
  | .ret none loc => .ret (some missing) loc
  | .ret (some v) loc => .ret (some v.filled) loc
  | .block ns loc => .block (filledAll ns) loc
  | .program ns loc => .program (filledAll ns) loc

def filledAll : List Tree → List Tree
  | [] => []
  | n :: ns => n.filled :: filledAll ns

end

/-- Neither places nor missing values show in the S-expression. -/
lemma toSExpr_filled_bare (n : Tree) : n.bare.filled.toSExpr = n.toSExpr := by
  have all {ns : List Tree} (ih : ∀ n ∈ ns, n.bare.filled.toSExpr = n.toSExpr) :
      toSExprAll (filledAll (bareAll ns)) = toSExprAll ns := by
    induction ns with
    | nil => rfl
    | cons n ns ihs =>
      rw [bareAll, filledAll, toSExprAll, toSExprAll, ih n (by simp),
        ihs fun m hm => ih m (by simp [hm])]
  induction n using Node.induction with
  | literal v => rfl
  | name x => rfl
  | binary op l r loc hl hr => simp [bare, filled, toSExpr, hl, hr]
  | declare t x v loc hv => cases v <;> simp [bare, filled, toSExpr, missing, nil, hv]
  | assign x v loc hv => simp [bare, filled, toSExpr, hv]
  | branch c b e loc hc hb he => cases e <;> simp [bare, filled, toSExpr, hc, hb, he]
  | whileLoop c b loc hc hb => simp [bare, filled, toSExpr, hc, hb]
  | forLoop b loc hb => simp [bare, filled, toSExpr, hb]
  | ret v loc hv => cases v <;> simp [bare, filled, toSExpr, missing, nil, hv]
  | block ns loc ih => simp [bare, filled, toSExpr, all ih]
  | program ns loc ih => simp [bare, filled, toSExpr, all ih]

/-! ### Reading S-expressions of programs -/

def ofWord (s : String) : Tree :=
  if s = "true" then .literal (.bool true) none
  else if s = "false" then .literal (.bool false) none
  else .name s none

def elsePart : Tree → Option Tree
  | .name _ _ => none
  | e => some e

/-- The tree with the given parts behind its first word. -/
def assemble (tag : String) (parts : List Tree) : Tree :=
  match tag, parts with
  | "VariableDecl", [.name t _, .name x _, v] => .declare t x (some v) none
  | "Assignment", [.name x _, v] => .assign x v none
  | "IfStatement", [c, b, e] => .branch c b (elsePart e) none
  | "WhileStatement", [c, b] => .whileLoop c b none
  | "ForStatement", [b] => .forLoop b none
  | "ReturnStatement", [v] => .ret (some v) none
  | "Block", ns => .block ns none
  | "Program", ns => .program ns none
  | op, [l, r] => .binary op l r none
  | _, _ => missing

mutual

/-- The tree of an S-expression, with a value in each declaration and each `return`. -/
def ofSExpr : SExpr → Tree
  | .symbol s => ofWord s
  | .text s => .literal (.text s) none
  | .number (.int n) => .literal (.int n) none
  | .number (.float x) => .literal (.float x) none
  | .list (.symbol tag :: xs) => assemble tag (ofSExprAll xs)
  | .list _ => missing

def ofSExprAll : List SExpr → List Tree
  | [] => []
  | x :: xs => ofSExpr x :: ofSExprAll xs

end

variable {ok : Literal → Prop} {e n : Tree} {x t op : String}

lemma ofWord_of_not_mem_keywords (h : x ∉ keywords) : ofWord x = .name x none := by
  have htrue : x ≠ "true" := fun hx => h (hx ▸ by decide)
  have hfalse : x ≠ "false" := fun hx => h (hx ▸ by decide)
  rw [ofWord, if_neg htrue, if_neg hfalse]

lemma ofWord_of_mem_typeNames (h : t ∈ typeNames) : ofWord t = .name t none := by
  have hall : ∀ t ∈ typeNames, t ≠ "true" ∧ t ≠ "false" := by decide
  rw [ofWord, if_neg (hall t h).1, if_neg (hall t h).2]

lemma assemble_operator (l r : Tree)
    (h : op ∈ comparisonSigns ++ additiveSigns ++ multiplicativeSigns) :
    assemble op [l, r] = .binary op l r none := by
  simp only [comparisonSigns, additiveSigns, multiplicativeSigns, Pieces.comparisons, Pieces.sums,
    Pieces.products, List.cons_append, List.nil_append, List.mem_cons, List.not_mem_nil,
    or_false] at h
  rcases h with rfl | rfl | rfl | rfl | rfl | rfl | rfl | rfl | rfl | rfl | rfl <;> rfl

lemma ofSExpr_expression (h : e.IsExpression ok) : ofSExpr e.toSExpr = e.bare.filled := by
  induction e using Node.induction with
  | literal v loc =>
    cases v with
    | bool b => cases b <;> rfl
    | _ => rfl
  | name x loc => exact ofWord_of_not_mem_keywords h.1
  | binary op l r loc hl hr =>
    change assemble op [ofSExpr l.toSExpr, ofSExpr r.toSExpr] = _
    rw [hl h.2.1, hr h.2.2, assemble_operator _ _ h.1]
    rfl
  | _ => exact h.elim

/-- A statement is never taken for a missing one. -/
lemma elsePart_statement (h : n.IsStatement ok) : elsePart n.bare.filled = some n.bare.filled := by
  cases n with
  | declare t x v => cases v <;> rfl
  | branch c b e => cases e <;> rfl
  | ret v => cases v <;> rfl
  | literal v => exact h.elim
  | name x => exact h.elim
  | _ => rfl

lemma ofSExprAll_of_forall {ns : List Tree} (h : ∀ n ∈ ns, ofSExpr n.toSExpr = n.bare.filled) :
    ofSExprAll (toSExprAll ns) = filledAll (bareAll ns) := by
  induction ns with
  | nil => rfl
  | cons n ns ih =>
    rw [List.forall_mem_cons] at h
    rw [toSExprAll, ofSExprAll, bareAll, filledAll, h.1, ih h.2]

lemma ofSExpr_statement (h : n.IsStatement ok) : ofSExpr n.toSExpr = n.bare.filled := by
  induction n using Node.induction with
  | declare t x v loc _ =>
    cases v with
    | none =>
      change assemble "VariableDecl" [ofWord t, ofWord x, missing] = _
      rw [ofWord_of_mem_typeNames h.1, ofWord_of_not_mem_keywords h.2.1]
      rfl
    | some v =>
      change assemble "VariableDecl" [ofWord t, ofWord x, ofSExpr v.toSExpr] = _
      rw [ofWord_of_mem_typeNames h.1, ofWord_of_not_mem_keywords h.2.1.1,
        ofSExpr_expression h.2.2]
      rfl
  | assign x v loc _ =>
    change assemble "Assignment" [ofWord x, ofSExpr v.toSExpr] = _
    rw [ofWord_of_not_mem_keywords h.1.1, ofSExpr_expression h.2]
    rfl
  | branch c b e loc _ hb he =>
    cases e with
    | none =>
      change assemble "IfStatement" [ofSExpr c.toSExpr, ofSExpr b.toSExpr, missing] = _
      rw [ofSExpr_expression h.1, hb h.2]
      rfl
    | some e =>
      obtain ⟨hc, hbody, -, helse⟩ := h
      change assemble "IfStatement" [ofSExpr c.toSExpr, ofSExpr b.toSExpr, ofSExpr e.toSExpr] = _
      rw [ofSExpr_expression hc, hb hbody, he e rfl helse]
      change branch _ _ (elsePart e.bare.filled) none = _
      rw [elsePart_statement helse]
      rfl
  | whileLoop c b loc _ hb =>
    change assemble "WhileStatement" [ofSExpr c.toSExpr, ofSExpr b.toSExpr] = _
    rw [ofSExpr_expression h.1, hb h.2]
    rfl
  | ret v loc _ =>
    cases v with
    | none => rfl
    | some v =>
      change assemble "ReturnStatement" [ofSExpr v.toSExpr] = _
      rw [ofSExpr_expression h]
      rfl
  | block ns loc ih =>
    change assemble "Block" (ofSExprAll (toSExprAll ns)) = _
    rw [ofSExprAll_of_forall fun n hn => ih n hn (isStatements_iff.1 h n hn)]
    rfl
  | _ => exact h.elim

/-- From the S-expression of a program its tree is read back, up to places and missing values. -/
lemma ofSExpr_program (h : n.IsProgram ok) : ofSExpr n.toSExpr = n.bare.filled := by
  cases n with
  | program ns loc =>
    change assemble "Program" (ofSExprAll (toSExprAll ns)) = _
    rw [ofSExprAll_of_forall fun n hn => ofSExpr_statement (isStatements_iff.1 h n hn)]
    rfl
  | _ => exact h.elim

/-! ### Symbols of programs -/

/-- A symbol in which no number can be read. -/
lemma isSymbol_of_integer? {s : String} (hne : s.toList ≠ []) (hmarked : s.toList.all goesOn)
    (hnumber : integer? (s.toList ++ [' ']) = none) : IsSymbol s := by
  refine ⟨hne, hmarked, fun n hn => ?_⟩
  rw [hn, integer?_toString] at hnumber
  cases hnumber

lemma isSymbol_name (h : IsName x) : IsSymbol x := by
  obtain ⟨c, r, hx, hc, -⟩ := exists_cons_of_isName h
  have hminus : c ≠ '-' := ne_of_isLetter hc (by decide)
  refine isSymbol_of_integer? (by simp [hx]) (List.all_eq_true.2 fun d hd => ?_) ?_
  · exact goesOn_of_class (f := isWordChar) (by decide) (List.all_eq_true.1 h.2.2 d hd)
  · have hcount : minusCount (c :: (r ++ [' '])) = 0 := minusCount.eq_2 _ (by simp [hminus])
    simp [hx, integer?, hcount, digitCount, not_isDigit_of_isLetter hc]

/-- The symbols that stand for no name of a program. -/
def fixedSymbols : List String :=
  typeNames ++ (comparisonSigns ++ additiveSigns ++ multiplicativeSigns) ++
    ["nil", "true", "false", "VariableDecl", "Assignment", "IfStatement", "WhileStatement",
      "ReturnStatement", "Block", "Program"]

lemma isSymbol_fixed {s : String} (h : s ∈ fixedSymbols) : IsSymbol s := by
  have hall : ∀ s ∈ fixedSymbols, s.toList ≠ [] ∧ s.toList.all goesOn ∧
      integer? (s.toList ++ [' ']) = none := by decide
  obtain ⟨hne, hmarked, hnumber⟩ := hall s h
  exact isSymbol_of_integer? hne hmarked hnumber

lemma clear_nil : Clear nil := .symbol (isSymbol_fixed (by decide))

/-- A list behind one of the fixed symbols. -/
lemma clear_list {s : String} {xs : List SExpr} (hs : s ∈ fixedSymbols)
    (hxs : ∀ x ∈ xs, Clear x) : Clear (.list (.symbol s :: xs)) :=
  .list (List.forall_mem_cons.2 ⟨.symbol (isSymbol_fixed hs), hxs⟩)

lemma clear_literal {v : Literal} (h : v.IsExact) : Clear (literalSExpr v) := by
  cases v with
  | int n => exact .number
  | float x => exact absurd rfl (h x)
  | text s => exact .text
  | bool b => cases b <;> exact .symbol (isSymbol_fixed (by decide))

lemma clear_expression (h : e.IsExpression Literal.IsExact) : Clear e.toSExpr := by
  induction e using Node.induction with
  | literal v loc => exact clear_literal h
  | name x loc => exact .symbol (isSymbol_name h)
  | binary op l r loc hl hr =>
    have hop : op ∈ fixedSymbols :=
      List.mem_append_left _ (List.mem_append_right _ h.1)
    exact clear_list hop (by simpa using ⟨hl h.2.1, hr h.2.2⟩)
  | _ => exact h.elim

lemma mem_toSExprAll {y : SExpr} {ns : List Tree} :
    y ∈ toSExprAll ns ↔ ∃ n ∈ ns, n.toSExpr = y := by
  induction ns with
  | nil => simp [toSExprAll]
  | cons n ns ih => simp [toSExprAll, ih, eq_comm]

lemma clear_statement (h : n.IsStatement Literal.IsExact) : Clear n.toSExpr := by
  have htype {t : String} (ht : t ∈ typeNames) : Clear (.symbol t) :=
    .symbol (isSymbol_fixed (List.mem_append_left _ (List.mem_append_left _ ht)))
  induction n using Node.induction with
  | declare t x v loc _ =>
    cases v with
    | none =>
      exact clear_list (by decide)
        (by simpa using ⟨htype h.1, .symbol (isSymbol_name h.2), clear_nil⟩)
    | some v =>
      exact clear_list (by decide)
        (by simpa using ⟨htype h.1, .symbol (isSymbol_name h.2.1), clear_expression h.2.2⟩)
  | assign x v loc _ =>
    exact clear_list (by decide)
      (by simpa using ⟨.symbol (isSymbol_name h.1), clear_expression h.2⟩)
  | branch c b e loc _ hb he =>
    cases e with
    | none =>
      exact clear_list (by decide) (by simpa using ⟨clear_expression h.1, hb h.2, clear_nil⟩)
    | some e =>
      exact clear_list (by decide)
        (by simpa using ⟨clear_expression h.1, hb h.2.1, he e rfl h.2.2.2⟩)
  | whileLoop c b loc _ hb =>
    exact clear_list (by decide) (by simpa using ⟨clear_expression h.1, hb h.2⟩)
  | ret v loc _ =>
    cases v with
    | none => exact clear_list (by decide) (by simpa using clear_nil)
    | some v => exact clear_list (by decide) (by simpa using clear_expression h)
  | block ns loc ih =>
    refine clear_list (by decide) fun y hy => ?_
    obtain ⟨n, hn, rfl⟩ := mem_toSExprAll.1 hy
    exact ih n hn (isStatements_iff.1 h n hn)
  | _ => exact h.elim

lemma clear_program (h : n.IsProgram ok) (hfloat : ∀ m ∈ n.walk, m.kind ≠ "Float") :
    Clear n.toSExpr := by
  have hexact : ∀ m ∈ n.walk, m.LiteralIs Literal.IsExact := by
    intro m hm v loc hv x hx
    subst hv hx
    exact hfloat _ hm rfl
  cases n with
  | program ns loc =>
    refine clear_list (by decide) fun y hy => ?_
    obtain ⟨n, hn, rfl⟩ := mem_toSExprAll.1 hy
    exact clear_statement ((isStatements_iff.1 h n hn).imp (forall_walk_child hexact hn))
  | _ => exact h.elim

/-- **What a dump tells.** Programs without floating-point numbers have the same dump exactly if
their trees are the same up to places, where a declaration or a `return` without a value counts as
one with the value `nil`. -/
theorem render_toSExpr_eq_iff {depth depth' : ℕ} {source source' : String} {t t' : Tree}
    (h : parse depth source = .ok t) (h' : parse depth' source' = .ok t')
    (hfloat : ∀ n ∈ t.walk, n.kind ≠ "Float") (hfloat' : ∀ n ∈ t'.walk, n.kind ≠ "Float") :
    t.toSExpr.render = t'.toSExpr.render ↔ t.bare.filled = t'.bare.filled := by
  have hprogram := isProgram_of_parse h
  have hprogram' := isProgram_of_parse h'
  constructor
  · intro htext
    have hsame : t.toSExpr = t'.toSExpr :=
      render_inj (clear_program hprogram hfloat) (clear_program hprogram' hfloat') htext
    rw [← ofSExpr_program hprogram, hsame, ofSExpr_program hprogram']
  · intro hsame
    rw [← toSExpr_filled_bare t, hsame, toSExpr_filled_bare t']

lemma kind_ne_of_not_mem {k : String} (h : k ∉ n.walk.map kind) : ∀ m ∈ n.walk, m.kind ≠ k :=
  fun _ hm hk => h (hk ▸ List.mem_map_of_mem hm)

theorem missing_values_dump : ∃ t t', parse 2 "int x; return;" = .ok t ∧
    parse 2 "int x = nil; return nil;" = .ok t' ∧ t.walk.length < t'.walk.length ∧
    t.toSExpr.render = t'.toSExpr.render ∧ t.bare.filled = t'.bare.filled := by
  have hread : (parse 2 "int x; return;").map (fun t => (t.toSExpr.render, t.walk.map kind)) =
      .ok ("(Program (VariableDecl int x nil) (ReturnStatement nil))",
        ["Program", "VariableDecl", "ReturnStatement"]) := by
    decide +kernel
  have hread' : (parse 2 "int x = nil; return nil;").map
      (fun t => (t.toSExpr.render, t.walk.map kind)) =
      .ok ("(Program (VariableDecl int x nil) (ReturnStatement nil))",
        ["Program", "VariableDecl", "Identifier", "ReturnStatement", "Identifier"]) := by
    decide +kernel
  obtain ⟨t, ht, hview⟩ := exists_of_map_parse hread
  obtain ⟨t', ht', hview'⟩ := exists_of_map_parse hread'
  obtain ⟨htext, hkinds⟩ := Prod.mk.inj hview
  obtain ⟨htext', hkinds'⟩ := Prod.mk.inj hview'
  have hfloat : ∀ n ∈ t.walk, n.kind ≠ "Float" := kind_ne_of_not_mem (by rw [hkinds]; decide)
  have hfloat' : ∀ n ∈ t'.walk, n.kind ≠ "Float" := kind_ne_of_not_mem (by rw [hkinds']; decide)
  have hlength : t.walk.length < t'.walk.length := by
    rw [← List.length_map (f := kind), hkinds, ← List.length_map (f := kind), hkinds']
    decide
  have htexts : t.toSExpr.render = t'.toSExpr.render := htext.trans htext'.symm
  exact ⟨t, t', ht, ht', hlength, htexts, (render_toSExpr_eq_iff ht ht' hfloat hfloat').1 htexts⟩

end Node

end Primer
