import Mathlib.Tactic
import Primer.Proofs.ReadShapes

/-!
Texts of the shape of a statement are read as the statement.

What a statement takes is settled by its own text, with one exception: if it ends in a branch, it
would take an `else` that follows. Statements in a row never do, since none of them begins with
`else`, and so neither what stands behind a row nor what stands before it has a say in how it is
read.
-/

namespace Primer.Grammar

open Rule Lexeme Text

variable {text us g k r rest : List Char} {p : Position} {n : Tree} {d : ℕ} {S : Shape}

/-! ### How statements begin -/

/-- The text begins as a statement of the kind of the tree does. -/
def Opening (cs : List Char) : Tree → Prop
  | .declare t _ _ _ => t ∈ typeNames ∧ Begins t cs
  | .assign x _ _ => Node.IsName x ∧ Begins x cs
  | .branch .. => Begins "if" cs
  | .whileLoop .. => Begins "while" cs
  | .ret .. => Begins "return" cs
  | .block .. => ∃ r, cs = '\x7b' :: r
  | _ => False

lemma begins_word {t : String} (ht : t ∈ keywords ∨ Node.IsName t) (hr : WordEnd r) :
    Begins t (t.toList ++ r) := by
  have hkey : ∀ w ∈ keywords, w.toList.all isWordChar ∧ w.toList.head?.any isLetter := by decide
  have hword : t.toList.all isWordChar ∧ t.toList.head?.any isLetter := by
    rcases ht with ht | ht
    · exact hkey t ht
    · exact ⟨ht.2.2, ht.2.1⟩
  exact ⟨hword.1, hword.2, r, rfl, hr⟩

lemma begins_guard {w : String} {X : Shape} {e b : Tree} (hw : w ∈ keywords)
    (h : GuardAt w X S p us e b) (rest : List Char) : Begins w (us ++ rest) := by
  cases h with
  | mk hg₁ hg₂ he hg₃ hg₄ hb =>
    rw [List.append_assoc, List.append_assoc]
    exact begins_word (Or.inl hw) (ends_layout hg₁ (ends_cons (by decide))).wordEnd

lemma opening_of_stmtForm (h : StmtForm d S p us n) (rest : List Char) :
    Opening (us ++ rest) n := by
  have hbefore {c : Char} {g r : List Char} (hg : Layout g)
      (hc : (isWordChar c || isDigit c || c == '.') = false) : WordEnd (g ++ c :: r) :=
    (ends_layout hg (ends_cons hc)).wordEnd
  cases h with
  | declare ht hg hne hx hk hus =>
    refine ⟨ht, ?_⟩
    rw [hus, List.append_assoc, List.append_assoc]
    exact begins_word (Or.inl (List.mem_append_left _ ht)) (wordEnd_of_layout hg hne _)
  | declareAs ht hg hne hx hk hg' hk' hv hus =>
    refine ⟨ht, ?_⟩
    rw [hus, List.append_assoc, List.append_assoc]
    exact begins_word (Or.inl (List.mem_append_left _ ht)) (wordEnd_of_layout hg hne _)
  | assign hx hk hg' hk' hv hus =>
    refine ⟨hx, ?_⟩
    rw [hus, List.append_assoc, List.append_assoc]
    exact begins_word (Or.inr hx) (hbefore hk (by decide))
  | branch h => exact begins_guard (by decide) h rest
  | branchElse h hopen hg hk hend ho hus =>
    rw [hus, List.append_assoc]
    exact begins_guard (by decide) h _
  | whileLoop h => exact begins_guard (by decide) h rest
  | ret hd hg hus =>
    rw [hus, List.append_assoc, List.append_assoc]
    exact begins_word (Or.inl (by decide)) (hbefore hg (by decide))
  | @retValue g vs k v hg hend hv hk hus =>
    have hne : g ++ vs ≠ [] := by simp [(firm_expr hv).ne_nil]
    have htext : us ++ rest = "return".toList ++ ((g ++ vs) ++ ((k ++ ";".toList) ++ rest)) := by
      simp [hus]
    rw [htext]
    exact begins_word (Or.inl (by decide)) ((wordEnd_append_iff hne).2 hend)
  | block hd h =>
    cases h
    exact ⟨_, rfl⟩

lemma opening_of_stmtAt (h : StmtAt d p us n) (rest : List Char) : Opening (us ++ rest) n := by
  cases d with
  | zero => exact h.elim
  | succ d => exact opening_of_stmtForm h rest

/-- No statement begins with `else`. -/
lemma Opening.word?_else {cs : List Char} (h : Opening cs n) : word? "else" cs = none := by
  have htypes : ∀ t ∈ typeNames, "else" ≠ t := by decide
  cases n with
  | declare t x v => exact h.2.word?_eq_none (by decide) (htypes t h.1)
  | assign x v =>
    refine h.2.word?_eq_none (by decide) ?_
    rintro rfl
    exact h.1.1 (by decide)
  | branch | whileLoop | ret => exact Begins.word?_eq_none h (by decide) (by decide)
  | block ns =>
    obtain ⟨r, rfl⟩ := h
    exact word?_eq_none_of_wordEnd (by decide) (by decide) (wordEnd_cons (by decide))
  | literal | name | binary | forLoop | program => exact h.elim

/-! ### Statements around their parts -/

/-- Wherever the text of a statement with at most `d` levels stands and no `else` that would belong
to it follows, it is taken for this statement. -/
def ReadsStatement (text : List Char) (d : ℕ) : Prop :=
  ∀ ⦃p us n rest⦄, StmtAt d p us n → Sited text p (us ++ rest) →
    (n.EndsOpen → NoElse text rest) → Takes text (statement d) us rest (· = n)

lemma noElse_layout (hg : Layout g) (hr : Solid r) (h : word? "else" r = none) :
    NoElse text (g ++ r) :=
  fun _ => .after (takes_layout hg hr) fun _ _ => .bind (rejects_word h)

lemma takes_equals_at (h : rest.head? ≠ some '=') :
    Takes text equals "=".toList rest (fun _ => True) := by
  refine (takes_sign "=").map fun _ _ => .absent (rejects_sign ?_)
  rintro ⟨r, rfl⟩
  exact h rfl

/-- An equals sign and an expression. -/
lemma takes_initializer {q : Position} {vs g' k' : List Char} {v : Tree} (hg' : Layout g')
    (hk' : Layout k') (hv : ExprAt d q vs v)
    (hs : Sited text q (vs ++ ((k' ++ ";".toList) ++ rest))) :
    Takes text (initializer (expression d)) ("=".toList ++ (g' ++ vs)) ((k' ++ ";".toList) ++ rest)
      (· = v) := by
  have hfirm := firm_expr hv
  have hclose : Halts 0 ((k' ++ ";".toList) ++ rest) := by
    rw [List.append_assoc]
    exact halts_closing (Or.inr rfl) hk' 0 _
  refine .bind (takes_equals_at ?_) fun _ _ => ?_
  · rw [List.append_assoc]
    exact head_ne_equals hg' hfirm _
  refine .bind (takes_layout hg' (hfirm.append _).solid) fun _ _ => ?_
  exact readsShape_expression d hv hs hclose

lemma takes_declare {t x : String} (ht : t ∈ typeNames) (hg : Layout g) (hne : g ≠ [])
    (hx : Node.IsName x) (hk : Layout k)
    (hus : us = t.toList ++ (g ++ (x.toList ++ (k ++ ";".toList))))
    (hs : Sited text p (us ++ rest)) :
    Takes text (declaration (expression d)) us rest
      (· = .declare t x none (some (.over p us))) := by
  refine (Takes.located_at (Q := (· = (t, x, none))) ?_ hs).map ?_
  · have htext : us = t.toList ++ (g ++ (x.toList ++ (k ++ ([] ++ ([] ++ ";".toList))))) := by
      simpa using hus
    have hname : WordEnd ((k ++ ([] ++ ([] ++ ";".toList))) ++ rest) := by
      rw [List.append_assoc]
      exact (ends_layout hk (ends_cons (by decide))).wordEnd
    rw [htext]
    refine .bind (takes_textOf (typeName?_append ht ?_)) ?_
    · rw [List.append_assoc]
      exact wordEnd_of_layout hg hne _
    rintro _ rfl
    refine .bind (takes_layout hg ?_) fun _ _ => ?_
    · rw [List.append_assoc]
      exact solid_name hx _
    refine .bind (takes_textOf (name?_append hx hname)) ?_
    rintro _ rfl
    refine .bind (takes_layout hk solid_semicolon) fun _ _ => ?_
    refine .bind (.optional_none (.bind (.bind (rejects_sign (by simp))))) ?_
    rintro _ rfl
    refine .bind (takes_gap_nil solid_semicolon) fun _ _ => ?_
    exact (takes_sign ";").map fun _ _ => .pure rfl
  · rintro ⟨parts, span⟩ ⟨(rfl : parts = _), (rfl : span = _)⟩
    exact .pure rfl

lemma takes_declareAs {g' k' vs : List Char} {t x : String} {v : Tree} (ht : t ∈ typeNames)
    (hg : Layout g) (hne : g ≠ []) (hx : Node.IsName x) (hk : Layout k) (hg' : Layout g')
    (hk' : Layout k')
    (hv : ExprAt d (p.advance (t.toList ++ (g ++ (x.toList ++ (k ++ ("=".toList ++ g')))))) vs v)
    (hus : us = t.toList ++ (g ++ (x.toList ++ (k ++ ("=".toList ++ (g' ++ (vs ++ (k' ++
      ";".toList))))))))
    (hs : Sited text p (us ++ rest)) :
    Takes text (declaration (expression d)) us rest
      (· = .declare t x (some v) (some (.over p us))) := by
  refine (Takes.located_at (Q := (· = (t, x, some v))) ?_ hs).map ?_
  · have htext : us = t.toList ++ (g ++ (x.toList ++ (k ++ (("=".toList ++ (g' ++ vs)) ++ (k' ++
        ";".toList))))) := by
      simpa using hus
    have hname : WordEnd ((k ++ (("=".toList ++ (g' ++ vs)) ++ (k' ++ ";".toList))) ++ rest) := by
      rw [List.append_assoc]
      exact (ends_layout hk (ends_cons (by decide))).wordEnd
    have hinit := takes_initializer hg' hk' hv (Sited.advance _ (by simpa [hus] using hs))
    rw [htext]
    refine .bind (takes_textOf (typeName?_append ht ?_)) ?_
    · rw [List.append_assoc]
      exact wordEnd_of_layout hg hne _
    rintro _ rfl
    refine .bind (takes_layout hg ?_) fun _ _ => ?_
    · rw [List.append_assoc]
      exact solid_name hx _
    refine .bind (takes_textOf (name?_append hx hname)) ?_
    rintro _ rfl
    refine .bind (takes_layout hk (solid_cons (by decide) (by decide))) fun _ _ => ?_
    refine .bind (.optional hinit) ?_
    rintro _ ⟨_, rfl, rfl⟩
    refine .bind (takes_layout hk' solid_semicolon) fun _ _ => ?_
    exact (takes_sign ";").map fun _ _ => .pure rfl
  · rintro ⟨parts, span⟩ ⟨(rfl : parts = _), (rfl : span = _)⟩
    exact .pure rfl

lemma takes_assign {g' k' vs : List Char} {x : String} {v : Tree} (hx : Node.IsName x)
    (hk : Layout k) (hg' : Layout g') (hk' : Layout k')
    (hv : ExprAt d (p.advance (x.toList ++ (k ++ ("=".toList ++ g')))) vs v)
    (hus : us = x.toList ++ (k ++ ("=".toList ++ (g' ++ (vs ++ (k' ++ ";".toList))))))
    (hs : Sited text p (us ++ rest)) :
    Takes text (assignment (expression d)) us rest (· = .assign x v (some (.over p us))) := by
  have hfirm := firm_expr hv
  have hclose : Halts 0 ((k' ++ ";".toList) ++ rest) := by
    rw [List.append_assoc]
    exact halts_closing (Or.inr rfl) hk' 0 _
  have hvalue := readsShape_expression d hv (Sited.advance _ (by simpa [hus] using hs)) hclose
  refine (Takes.located_at (Q := (· = (x, v))) ?_ hs).map ?_
  · rw [hus]
    refine .bind (takes_textOf (name?_append hx ?_)) ?_
    · rw [List.append_assoc]
      exact (ends_layout hk (ends_cons (by decide))).wordEnd
    rintro _ rfl
    refine .bind (takes_layout hk (solid_cons (by decide) (by decide))) fun _ _ => ?_
    refine .bind (takes_equals_at ?_) fun _ _ => ?_
    · rw [List.append_assoc, List.append_assoc]
      exact head_ne_equals hg' hfirm _
    refine .bind (takes_layout hg' ?_) fun _ _ => ?_
    · rw [List.append_assoc]
      exact (hfirm.append _).solid
    refine .bind hvalue ?_
    rintro _ rfl
    refine .bind (takes_layout hk' solid_semicolon) fun _ _ => ?_
    exact (takes_sign ";").map fun _ _ => .pure rfl
  · rintro ⟨parts, span⟩ ⟨(rfl : parts = _), (rfl : span = _)⟩
    exact .pure rfl

lemma takes_ret (hd : 0 < d) (hg : Layout g) (hus : us = "return".toList ++ (g ++ ";".toList))
    (hs : Sited text p (us ++ rest)) :
    Takes text (returnStatement (expression d)) us rest (· = .ret none (some (.over p us))) := by
  obtain ⟨d, rfl⟩ := Nat.exists_eq_succ_of_ne_zero hd.ne'
  have hvalue : Rejects text (returnValue (expression (d + 1))) ((g ++ ";".toList) ++ rest) := by
    rw [List.append_assoc]
    exact .after (takes_layout hg solid_semicolon) fun _ _ => rejects_expression
  refine (Takes.located_at (Q := (· = none)) ?_ hs).map ?_
  · have htext : us = "return".toList ++ ([] ++ (g ++ ";".toList)) := hus
    rw [htext]
    refine .bind (takes_word (by decide) ?_) fun _ _ => ?_
    · rw [List.nil_append, List.append_assoc]
      exact (ends_layout hg (ends_cons (by decide))).wordEnd
    refine .bind (.optional_none hvalue) ?_
    rintro _ rfl
    refine .bind (takes_layout hg solid_semicolon) fun _ _ => ?_
    exact (takes_sign ";").map fun _ _ => .pure rfl
  · rintro ⟨parts, span⟩ ⟨(rfl : parts = _), (rfl : span = _)⟩
    exact .pure rfl

lemma takes_retValue {vs : List Char} {v : Tree} (hg : Layout g) (hend : WordEnd (g ++ vs))
    (hv : ExprAt d (p.advance ("return".toList ++ g)) vs v) (hk : Layout k)
    (hus : us = "return".toList ++ (g ++ (vs ++ (k ++ ";".toList))))
    (hs : Sited text p (us ++ rest)) :
    Takes text (returnStatement (expression d)) us rest
      (· = .ret (some v) (some (.over p us))) := by
  have hfirm := firm_expr hv
  have hclose : Halts 0 ((k ++ ";".toList) ++ rest) := by
    rw [List.append_assoc]
    exact halts_closing (Or.inr rfl) hk 0 _
  have hvalue := readsShape_expression d hv (Sited.advance _ (by simpa [hus] using hs)) hclose
  have hreturn : Takes text (returnValue (expression d)) (g ++ vs) ((k ++ ";".toList) ++ rest)
      (· = v) :=
    .bind (takes_layout hg (hfirm.append _).solid) fun _ _ => hvalue
  refine (Takes.located_at (Q := (· = some v)) ?_ hs).map ?_
  · have htext : us = "return".toList ++ ((g ++ vs) ++ (k ++ ";".toList)) := by simpa using hus
    rw [htext]
    refine .bind (takes_word (by decide) ?_) fun _ _ => ?_
    · rw [List.append_assoc]
      exact (wordEnd_append_iff (by simp [hfirm.ne_nil])).2 hend
    refine .bind (.optional hreturn) ?_
    rintro _ ⟨_, rfl, rfl⟩
    refine .bind (takes_layout hk solid_semicolon) fun _ _ => ?_
    exact (takes_sign ";").map fun _ _ => .pure rfl
  · rintro ⟨parts, span⟩ ⟨(rfl : parts = _), (rfl : span = _)⟩
    exact .pure rfl

lemma takes_guard {w : String} {e b : Tree} (hw : w ∈ keywords) (hS : ReadsStatement text d)
    (h : GuardAt w (ExprAt d) (StmtAt d) p us e b)
    (hs : Sited text p (us ++ rest)) (hrest : b.EndsOpen → NoElse text rest) :
    Takes text (guarded w (expression d) (statement d)) us rest (· = (e, b)) := by
  cases h with
  | @mk g₁ g₂ cs g₃ g₄ bs _ _ hg₁ hg₂ he hg₃ hg₄ hb =>
    have hclose : Halts 0 ((g₃ ++ (")".toList ++ (g₄ ++ bs))) ++ rest) := by
      rw [List.append_assoc]
      exact halts_closing (Or.inl rfl) hg₃ 0 _
    have hcondition := readsShape_expression d he (Sited.advance _ (by simpa using hs)) hclose
    have hbody := hS hb (Sited.advance _ (by simpa using hs)) hrest
    refine .bind (takes_word (all_isWordChar_of_mem_keywords hw) ?_) fun _ _ => ?_
    · rw [List.append_assoc]
      exact (ends_layout hg₁ (ends_cons (by decide))).wordEnd
    refine .bind (takes_layout hg₁ (solid_cons (by decide) (by decide))) fun _ _ => ?_
    refine .bind (takes_sign "(") fun _ _ => .bind (takes_layout hg₂ ?_) fun _ _ => ?_
    · rw [List.append_assoc]
      exact ((firm_expr he).append _).solid
    refine .bind hcondition ?_
    rintro _ rfl
    refine .bind (takes_layout hg₃ (solid_cons (by decide) (by decide))) fun _ _ => ?_
    refine .bind (takes_sign ")") fun _ _ => ?_
    refine .bind (takes_layout hg₄ ((firm_stmt hb).append rest).solid) fun _ _ => ?_
    refine hbody.map ?_
    rintro _ rfl
    exact .pure rfl

lemma takes_branch_at {e b : Tree} (hS : ReadsStatement text d)
    (h : GuardAt "if" (ExprAt d) (StmtAt d) p us e b)
    (hs : Sited text p (us ++ rest)) (hrest : NoElse text rest) :
    Takes text (branch (expression d) (statement d)) us rest
      (· = .branch e b none (some (.over p us))) := by
  have hguard := takes_guard (by decide) hS h hs fun _ => hrest
  refine (Takes.located_at (Q := (· = ((e, b), none))) ?_ hs).map ?_
  · rw [← List.append_nil us]
    refine .bind hguard ?_
    rintro _ rfl
    refine (Takes.optional_none (hrest _)).map ?_
    rintro _ rfl
    exact .pure rfl
  · rintro ⟨parts, span⟩ ⟨(rfl : parts = _), (rfl : span = _)⟩
    exact .pure rfl

lemma takes_branchElse {vs ws : List Char} {e b o : Tree} (hS : ReadsStatement text d)
    (h : GuardAt "if" (ExprAt d) (StmtAt d) p vs e b)
    (hopen : ¬ b.EndsOpen) (hg : Layout g) (hk : Layout k) (hend : WordEnd (k ++ ws))
    (ho : StmtAt d (p.advance (vs ++ (g ++ ("else".toList ++ k)))) ws o)
    (hus : us = vs ++ (g ++ ("else".toList ++ (k ++ ws)))) (hs : Sited text p (us ++ rest))
    (hrest : o.EndsOpen → NoElse text rest) :
    Takes text (branch (expression d) (statement d)) us rest
      (· = .branch e b (some o) (some (.over p us))) := by
  have hguard : Takes text (guarded "if" (expression d) (statement d)) vs
      ((g ++ ("else".toList ++ (k ++ ws))) ++ rest) (· = (e, b)) :=
    takes_guard (by decide) hS h (by simpa [hus] using hs) fun hb => absurd hb hopen
  have hbody := hS ho (Sited.advance _ (by simpa [hus] using hs)) hrest
  have helse : Takes text (elseClause (statement d)) (g ++ ("else".toList ++ (k ++ ws))) rest
      (· = o) := by
    refine .bind (takes_layout hg (solid_cons (by decide) (by decide))) fun _ _ => ?_
    refine .bind (takes_word (by decide) ?_) fun _ _ => ?_
    · exact (wordEnd_append_iff (by simp [(firm_stmt ho).ne_nil])).2 hend
    exact .bind (takes_layout hk ((firm_stmt ho).append rest).solid) fun _ _ => hbody
  refine (Takes.located_at (Q := (· = ((e, b), some o))) ?_ hs).map ?_
  · rw [hus]
    refine .bind hguard ?_
    rintro _ rfl
    refine (Takes.optional helse).map ?_
    rintro _ ⟨_, rfl, rfl⟩
    exact .pure rfl
  · rintro ⟨parts, span⟩ ⟨(rfl : parts = _), (rfl : span = _)⟩
    exact .pure rfl

lemma takes_while {e b : Tree} (hS : ReadsStatement text d)
    (h : GuardAt "while" (ExprAt d) (StmtAt d) p us e b) (hs : Sited text p (us ++ rest))
    (hrest : b.EndsOpen → NoElse text rest) :
    Takes text (whileLoop (expression d) (statement d)) us rest
      (· = .whileLoop e b (some (.over p us))) := by
  refine ((takes_guard (by decide) hS h hs hrest).located_at hs).map ?_
  rintro ⟨parts, span⟩ ⟨(rfl : parts = _), (rfl : span = _)⟩
  exact .pure rfl

/-! ### Statements in a row -/

/-- What follows a statement of a row is no `else`, if none follows the row. -/
lemma noElse_row {ns : List Tree} (h : RowAt (StmtAt d) p us ns)
    (hrest : NoElse text rest) : NoElse text (us ++ rest) := by
  cases h with
  | nil => exact hrest
  | cons hg hn h =>
    rw [List.append_assoc, List.append_assoc]
    exact noElse_layout hg ((firm_stmt hn).append _).solid (opening_of_stmtAt hn _).word?_else

/-- The statements of a row are read one after the other. -/
lemma run_of_row {ns : List Tree} (hS : ReadsStatement text d) (h : RowAt (StmtAt d) p us ns)
    (hs : Sited text p (us ++ rest)) (hrest : NoElse text rest) {i : ℕ}
    (hi : text.drop i = us ++ rest) :
    Run (item (statement d)) (.within text i) ns (.within text (i + us.length)) ∧
      ns.length ≤ us.length := by
  induction h generalizing i with
  | nil => exact ⟨.nil, le_rfl⟩
  | @cons p g us vs n ns hg hn h ih =>
    have htext : (g ++ (us ++ vs)) ++ rest = (g ++ us) ++ (vs ++ rest) := by simp
    rw [htext] at hs hi
    have hitem : Takes text (item (statement d)) (g ++ us) (vs ++ rest) (· = n) :=
      .bind (takes_layout hg ((firm_stmt hn).append _).solid) fun _ _ =>
        hS hn (Sited.advance g (by simpa using hs)) fun _ => noElse_row h hrest
    obtain ⟨_, haccept, rfl⟩ := hitem i hi
    obtain ⟨hrun, hlen⟩ := ih (hs.advance _) (drop_add_length hi)
    rw [Nat.add_assoc, ← List.length_append, List.append_assoc] at hrun
    have hpos := List.length_pos_iff.2 (firm_stmt hn).ne_nil
    refine ⟨.cons haccept hrun, ?_⟩
    simp only [List.length_cons, List.length_append]
    omega

lemma takes_row {ns : List Tree} (hS : ReadsStatement text d) (h : RowAt (StmtAt d) p us ns)
    (hs : Sited text p (us ++ rest)) (hrest : NoElse text rest)
    (hend : Rejects text (item (statement d)) rest) :
    Takes text (statements (statement d)) us rest (· = ns) := by
  intro i hi
  obtain ⟨hrun, hlen⟩ := run_of_row hS h hs hrest hi
  refine ⟨ns, many_of_run hrun ?_ (hend _ (drop_add_length hi)), rfl⟩
  have htext : (Cursor.within text i).rest = us ++ rest := hi
  rw [htext, List.length_append]
  omega

lemma takes_braced_at {ns : List Tree} (hd : 0 < d) (hS : ReadsStatement text d)
    (h : BracedAt (StmtAt d) p us ns) (hs : Sited text p (us ++ rest)) :
    Takes text (braced (statement d)) us rest (· = ns) := by
  obtain ⟨d, rfl⟩ := Nat.exists_eq_succ_of_ne_zero hd.ne'
  cases h with
  | @mk us g _ h hg =>
    have hbrace : Solid ("\x7d".toList ++ rest) := solid_cons (by decide) (by decide)
    have hrest : NoElse text ((g ++ "\x7d".toList) ++ rest) := by
      rw [List.append_assoc]
      exact noElse_layout hg hbrace
        (word?_eq_none_of_wordEnd (by decide) (by decide) (wordEnd_cons (by decide)))
    have hend : Rejects text (item (statement (d + 1))) ((g ++ "\x7d".toList) ++ rest) := by
      rw [List.append_assoc]
      exact .after (takes_layout hg hbrace) fun _ _ => rejects_statement_close
    have hrow := takes_row hS h (Sited.advance _ (by simpa using hs)) hrest hend
    refine .bind (takes_sign "\x7b") fun _ _ => .bind hrow ?_
    rintro _ rfl
    refine .bind (takes_layout hg hbrace) fun _ _ => ?_
    exact (takes_sign "\x7d").map fun _ _ => .pure rfl

/-- **Statements**: a text of the shape of a statement is read as this statement, where no `else`
follows that would belong to it. -/
theorem readsStatement (d : ℕ) : ReadsStatement text d := by
  induction d with
  | zero => exact fun _ _ _ _ h => h.elim
  | succ d ih =>
    intro p us n rest h hs hrest
    have hopening := opening_of_stmtForm h rest
    cases h with
    | declare ht hg hne hx hk hus =>
      exact takes_statementOf_declaration ht hopening.2 (takes_declare ht hg hne hx hk hus hs)
    | declareAs ht hg hne hx hk hg' hk' hv hus =>
      exact takes_statementOf_declaration ht hopening.2
        (takes_declareAs ht hg hne hx hk hg' hk' hv hus hs)
    | assign hx hk hg' hk' hv hus =>
      exact takes_statementOf_assignment hx hopening.2 (takes_assign hx hk hg' hk' hv hus hs)
    | branch h =>
      exact takes_statementOf_branch hopening (takes_branch_at ih h hs (hrest trivial))
    | branchElse h hopen hg hk hend ho hus =>
      exact takes_statementOf_branch hopening
        (takes_branchElse ih h hopen hg hk hend ho hus hs hrest)
    | whileLoop h =>
      exact takes_statementOf_whileLoop hopening (takes_while ih h hs hrest)
    | ret hd hg hus =>
      exact takes_statementOf_returnStatement hopening (takes_ret hd hg hus hs)
    | retValue hg hend hv hk hus =>
      exact takes_statementOf_returnStatement hopening (takes_retValue hg hend hv hk hus hs)
    | block hd h =>
      refine .orElse_left (((takes_braced_at hd ih h hs).located_at hs).map ?_)
      rintro ⟨parts, span⟩ ⟨(rfl : parts = _), (rfl : span = _)⟩
      exact .pure rfl

end Primer.Grammar
