import Mathlib.Tactic
import Primer.Proofs.FoundShapes
import Primer.Proofs.ReadStatementShapes

/-!
The shapes of whole texts.

A program is statements in a row or a main function, with layout around them. The rule for a program
first looks for a main function, and where a statement stands there is none: behind the words `int`
and `main` a declaration goes on with a semicolon or an equals sign.
-/

namespace Primer.Grammar

open Rule Cursor Lexeme Text

variable {text us g k r rest : List Char} {p : Position} {n : Tree} {ns : List Tree} {d : ℕ}

/-! ### Main functions -/

lemma takes_main (hd : 0 < d) (h : MainAt (StmtAt d) p us ns) (hs : Sited text p (us ++ rest)) :
    Takes text (mainFunction (statement d)) us rest (· = ns) := by
  cases h with
  | @mk g₁ g₂ g₃ g₄ us _ hg₁ hne hg₂ hg₃ hg₄ h =>
    have hbraced := takes_braced_at hd (readsStatement d) h (Sited.advance _ (by simpa using hs))
    refine .bind (takes_word (by decide) ?_) fun _ _ => ?_
    · rw [List.append_assoc]
      exact wordEnd_of_layout hg₁ hne _
    refine .bind (takes_layout hg₁ (solid_cons (by decide) (by decide))) fun _ _ => ?_
    refine .bind (takes_word (by decide) ?_) fun _ _ => ?_
    · rw [List.append_assoc]
      exact (ends_layout hg₂ (ends_cons (by decide))).wordEnd
    refine .bind (takes_layout hg₂ (solid_cons (by decide) (by decide))) fun _ _ => ?_
    refine .bind (takes_sign "(") fun _ _ => ?_
    refine .bind (takes_layout hg₃ (solid_cons (by decide) (by decide))) fun _ _ => ?_
    refine .bind (takes_sign ")") fun _ _ => ?_
    refine .bind (takes_layout hg₄ ?_) fun _ _ => hbraced
    cases h
    exact solid_cons (by decide) (by decide)

lemma rejects_main_of_word (s : Rule Tree) (h : word? "int" rest = none) :
    Rejects text (mainFunction s) rest :=
  .bind (rejects_word h)

/-- Behind the words of a declaration stands no parenthesis. -/
lemma rejects_main_declare {t x : String} {c : Char} (s : Rule Tree) (ht : t ∈ typeNames)
    (hg : Layout g) (hne : g ≠ []) (hx : Node.IsName x) (hk : Layout k) (hc : c = ';' ∨ c = '=') :
    Rejects text (mainFunction s) (t.toList ++ (g ++ (x.toList ++ (k ++ c :: r)))) := by
  have hword : ∀ w ∈ typeNames, w.toList.all isWordChar := by decide
  have hend : WordEnd (g ++ (x.toList ++ (k ++ c :: r))) := wordEnd_of_layout hg hne _
  have hsign : Ends (c :: r) ∧ Solid (c :: r) ∧ c ≠ '(' := by
    rcases hc with rfl | rfl <;>
      exact ⟨ends_cons (by decide), solid_cons (by decide) (by decide), by decide⟩
  by_cases hint : "int" = t
  · subst hint
    have hname : WordEnd (k ++ c :: r) := (ends_layout hk hsign.1).wordEnd
    refine .after (takes_word (by decide) hend) fun _ _ => ?_
    refine .after (takes_layout hg (solid_name hx _)) fun _ _ => ?_
    by_cases hmain : "main" = x
    · subst hmain
      refine .after (takes_word (by decide) hname) fun _ _ => ?_
      refine .after (takes_layout hk hsign.2.1) fun _ _ => .bind (rejects_sign ?_)
      exact not_isPrefix_of_head (by simpa using hsign.2.2.symm) (by decide)
    · exact .bind (rejects_word (word?_ne (by decide) hx.2.2 hname hmain))
  · exact rejects_main_of_word s (word?_ne (by decide) (hword t ht) hend hint)

/-- Where a statement stands, there is no main function. -/
lemma rejects_main (s : Rule Tree) (h : StmtAt d p us n) (rest : List Char) :
    Rejects text (mainFunction s) (us ++ rest) := by
  have hopening := opening_of_stmtAt h rest
  cases d with
  | zero => exact h.elim
  | succ d =>
    cases h with
    | declare ht hg hne hx hk hus =>
      simpa [hus] using rejects_main_declare s ht hg hne hx hk (Or.inl rfl)
    | declareAs ht hg hne hx hk hg' hk' hv hus =>
      simpa [hus] using rejects_main_declare s ht hg hne hx hk (Or.inr rfl)
    | assign hx hk hg' hk' hv hus =>
      refine rejects_main_of_word s (hopening.2.word?_eq_none (by decide) ?_)
      rintro rfl
      exact hx.1 (by decide)
    | branch h => exact rejects_main_of_word s (hopening.word?_eq_none (by decide) (by decide))
    | branchElse h hopen hg hk hend ho hus =>
      exact rejects_main_of_word s (hopening.word?_eq_none (by decide) (by decide))
    | whileLoop h => exact rejects_main_of_word s (hopening.word?_eq_none (by decide) (by decide))
    | ret hd hg hus =>
      exact rejects_main_of_word s (hopening.word?_eq_none (by decide) (by decide))
    | retValue hg hend hv hk hus =>
      exact rejects_main_of_word s (hopening.word?_eq_none (by decide) (by decide))
    | block hd h =>
      obtain ⟨r, hr⟩ := hopening
      rw [hr]
      exact rejects_main_of_word s
        (word?_eq_none_of_wordEnd (by decide) (by decide) (wordEnd_cons (by decide)))

/-! ### Whole texts -/

def BodyAt (d : ℕ) (p : Position) (us : List Char) (ns : List Tree) : Prop :=
  MainAt (StmtAt d) p us ns ∨ RowAt (StmtAt d) p us ns

lemma layout_eq_nil (hg : Layout g) (h : Solid (g ++ r)) : g = [] := by
  cases hg with
  | nil => rfl
  | blank hc hg => simp [Solid, hc] at h
  | line hcs hg => simp [Solid, comment?] at h
  | block hcs hg => simp [Solid, comment?, commentEnd?_append hcs] at h

/-- A row that begins without layout is no main function. -/
lemma rejects_main_row (s : Rule Tree) (h : RowAt (StmtAt d) p us ns) (hk : Layout k)
    (hsolid : Solid (us ++ k)) : Rejects text (mainFunction s) (us ++ k) := by
  cases h with
  | nil =>
    rw [List.nil_append] at hsolid ⊢
    obtain rfl := layout_eq_nil hk (r := []) (by simpa using hsolid)
    exact rejects_main_of_word s (by decide)
  | cons hg hn h =>
    rw [List.append_assoc] at hsolid ⊢
    obtain rfl := layout_eq_nil hg hsolid
    rw [List.nil_append, List.append_assoc]
    exact rejects_main s hn _

lemma takes_body_at (hd : 0 < d) (h : BodyAt d p us ns) (hs : Sited text p (us ++ k))
    (hsolid : Solid (us ++ k)) (hk : Layout k) :
    Takes text (body (statement d)) us k (· = ns) := by
  obtain ⟨d, rfl⟩ := Nat.exists_eq_succ_of_ne_zero hd.ne'
  rcases h with h | h
  · exact .orElse_left (takes_main hd h hs)
  · have helse : NoElse text (k ++ []) := noElse_layout hk solid_nil (by decide)
    have hend : Rejects text (item (statement (d + 1))) (k ++ []) :=
      .after (takes_layout hk solid_nil) fun _ _ => rejects_statement_nil
    rw [List.append_nil] at helse hend
    exact .orElse_right (rejects_main_row _ h hk hsolid)
      (takes_row (readsStatement (d + 1)) h hs helse hend)

/-- **Programs**: a text that is made of statements, in a row or in a main function, and of layout
around them is read as the program of these statements. -/
theorem program_of_body (hd : 0 < d) (hg : Layout g)
    (h : BodyAt d (Position.initial.advance g) us ns) (hsolid : Solid (us ++ k)) (hk : Layout k)
    (htext : text = g ++ (us ++ k)) :
    program d (.ofText text) =
      .accept (.program ns (some (.over .initial text))) (.within text text.length) := by
  have hs : Sited text .initial (text ++ []) := ⟨[], by simp, rfl⟩
  have hbody : Takes text (body (statement d)) us (k ++ []) (· = ns) := by
    rw [List.append_nil]
    exact takes_body_at hd h (Sited.advance g ⟨[], htext, rfl⟩) hsolid hk
  have htakes : Takes text (program d) text [] (· = .program ns (some (.over .initial text))) := by
    refine (Takes.located_at (Q := (· = ns)) ?_ hs).map ?_
    · nth_rewrite 2 [htext]
      refine .bind (takes_layout hg (by simpa using hsolid)) fun _ _ => ?_
      refine .bind hbody ?_
      rintro _ rfl
      exact (takes_layout hk solid_nil).map fun _ _ => .pure rfl
    · rintro ⟨parts, span⟩ ⟨(rfl : parts = _), (rfl : span = _)⟩
      exact .pure rfl
  obtain ⟨_, haccept, rfl⟩ := htakes 0 (by simp)
  rw [ofText_eq_within, haccept, Nat.zero_add]

/-- How a program is read: a gap over `g`, a body over `us` and a gap over `k`. Where a row ends and
the text does not, no statement follows. -/
structure ProgramRead (d : ℕ) (c c' : Cursor) (g us k : List Char) (ns : List Tree) : Prop where
  took : Took c (g ++ (us ++ k)) c'
  body : MainAt (StmtAt d) (c.pos.advance g) us ns ∨
    RowAt (StmtAt d) (c.pos.advance g) us ns ∧ (c'.rest ≠ [] → statement d c' = .reject)
  solid : Solid (us ++ (k ++ c'.rest))
  stops : Solid c'.rest
  layout : c'.rest ≠ [] → Layout g ∧ Layout k

lemma programRead_of_accept {t : Tree} {c c' : Cursor} (h : program d c = .accept t c') :
    ∃ g us k ns, ProgramRead d c c' g us k ns ∧
      t = .program ns (some (.over c.pos (g ++ (us ++ k)))) := by
  obtain ⟨ns, c₃, hparts, hpure⟩ := located_bind_eq_accept.1 h
  obtain ⟨rfl, rfl⟩ := pure_eq_accept.1 hpure
  simp only [bind_eq_accept, pure_eq_accept] at hparts
  obtain ⟨_, c₁, hgap, ns, c₂, hbody, _, c₃, hgap', rfl, rfl⟩ := hparts
  obtain ⟨g, hg, hlayout, hsolid⟩ := took_gap hgap
  obtain ⟨k, hk, hlayout', hstops⟩ := took_gap hgap'
  -- the texts of the three parts, whichever body there is
  have hread : ∀ us, Took c₁ us c₂ → (MainAt (StmtAt d) c₁.pos us ns ∨
      RowAt (StmtAt d) c₁.pos us ns ∧ (c₃.rest ≠ [] → statement d c₃ = .reject)) →
      ∃ g us k ns', ProgramRead d c c₃ g us k ns' ∧ Node.program ns (some ⟨c.pos, c₃.pos⟩) =
        .program ns' (some (.over c.pos (g ++ (us ++ k)))) := by
    intro us hus hshape
    have htook := hg.trans (hus.trans hk)
    rw [(hus.trans hk).rest, List.append_assoc] at hsolid hlayout
    rw [hg.pos] at hshape
    refine ⟨g, us, k, ns, ⟨htook, hshape, hsolid, hstops, fun hne => ?_⟩, ?_⟩
    · exact ⟨hlayout (by simp [hne]), hlayout' hne⟩
    · rw [Span.over, htook.pos]
  rcases orElse_eq_accept.1 hbody with hmain | ⟨-, hrow⟩
  · obtain ⟨us, hus, hshape⟩ := took_mainFunction hmain
    exact hread us hus (Or.inl hshape)
  · obtain ⟨us, hus, hshape⟩ := rowAt_of_run (finds_statement d) (run_of_many hrow)
    refine hread us hus (Or.inr ⟨hshape, fun hne => ?_⟩)
    rcases (progresses_item (finds_statement d)).stops hrow with hreject | hnil
    · -- the gap behind the row is the one in front of the statement that was looked for
      rcases bind_eq_reject.1 hreject with hreject | ⟨_, _, haccept, hreject⟩
      · exact absurd (ignore_eq_reject.1 hreject) many_ne_reject
      · rw [hgap'] at haccept
        rwa [(Reply.accept.inj haccept).2]
    · rw [hk.rest] at hnil
      exact absurd (List.append_eq_nil_iff.1 hnil).2 hne

end Primer.Grammar
