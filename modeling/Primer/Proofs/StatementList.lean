import Mathlib.Tactic
import Primer.Proofs.Places
import Primer.Proofs.Relocation

/-!
Texts that are nothing but statements.

A text may be statements in a row with layout around them and no main function. The shape of such a
text leaves one thing open that the shapes of its parts do not: a comment at its very end may lack
its line end.
-/

namespace Primer.Grammar

open Rule Cursor Lexeme Text

variable {text us vs g k : List Char} {p p' : Position} {ns : List Tree} {d : ℕ}
  {f : Position → Position}

/-! ### Layout at the end of a text -/

/-- Layout up to the end of a text, which ends the last line as a line end does. -/
def LastLayout (k : List Char) : Prop := Layout (k ++ ['\n'])

lemma Layout.last (hk : Layout k) : LastLayout k := hk.append (.blank (by decide) .nil)

lemma Layout.append_last (hg : Layout g) (hk : LastLayout k) : LastLayout (g ++ k) := by
  rw [LastLayout, List.append_assoc]
  exact hg.append hk

/-- Layout at the end of a text is layout, but for a comment that the text ends in. -/
lemma LastLayout.cases (h : LastLayout k) :
    Layout k ∨ ∃ g cs, k = g ++ '/' :: '/' :: cs ∧ Layout g ∧ '\n' ∉ cs := by
  -- a piece of layout in front of more of it, whose end is the end of the whole
  have hbehind : ∀ {a k : List Char}, (∀ {b}, Layout b → Layout (a ++ b)) →
      (Layout k ∨ ∃ g cs, k = g ++ '/' :: '/' :: cs ∧ Layout g ∧ '\n' ∉ cs) →
      Layout (a ++ k) ∨ ∃ g cs, a ++ k = g ++ '/' :: '/' :: cs ∧ Layout g ∧ '\n' ∉ cs := by
    rintro a k ha (hk | ⟨g, cs, rfl, hg, hcs⟩)
    · exact Or.inl (ha hk)
    · exact Or.inr ⟨a ++ g, cs, by simp, ha hg, hcs⟩
  rw [LastLayout] at h
  generalize hw : k ++ ['\n'] = w at h
  induction h generalizing k with
  | nil => simp at hw
  | @blank c r hc _ ih =>
    cases k with
    | nil => exact Or.inl .nil
    | cons c' k =>
      obtain ⟨rfl, hr⟩ := List.cons.inj hw
      exact hbehind (a := [c']) (fun hb => .blank hc hb) (ih hr)
  | @line cs r hcs _ ih =>
    rcases List.eq_nil_or_concat r with rfl | ⟨r, c, rfl⟩
    · have hcut : k ++ ['\n'] = ('/' :: '/' :: cs) ++ ['\n'] := by simpa using hw
      obtain ⟨rfl, -⟩ := List.append_inj' hcut rfl
      exact Or.inr ⟨[], cs, rfl, .nil, hcs⟩
    · have hcut : k ++ ['\n'] = (('/' :: '/' :: (cs ++ ['\n'])) ++ r) ++ [c] := by simpa using hw
      obtain ⟨rfl, hc⟩ := List.append_inj' hcut rfl
      refine hbehind (fun hb => ?_) (ih (by simp [hc]))
      simpa using Layout.line hcs hb
  | @block cs r hcs _ ih =>
    rcases List.eq_nil_or_concat r with rfl | ⟨r, c, rfl⟩
    · have hcut : k ++ ['\n'] = ('/' :: '*' :: (cs ++ ['*'])) ++ ['/'] := by simpa using hw
      obtain ⟨-, hc⟩ := List.append_inj' hcut rfl
      simp at hc
    · have hcut : k ++ ['\n'] = (('/' :: '*' :: (cs ++ ['*', '/'])) ++ r) ++ [c] := by
        simpa using hw
      obtain ⟨rfl, hc⟩ := List.append_inj' hcut rfl
      refine hbehind (fun hb => ?_) (ih (by simp [hc]))
      simpa using Layout.block hcs hb

/-- A comment that the text ends in is one step of a gap. -/
lemma takes_lastComment {cs : List Char} (hcs : '\n' ∉ cs) :
    Takes text (blanks <|> comment) ('/' :: '/' :: cs) [] (fun _ => True) := by
  have hline : cs.takeWhile (· ≠ '\n') = cs :=
    List.takeWhile_eq_self_iff.2 fun c hc => by simpa using fun heq : c = '\n' => hcs (heq ▸ hc)
  have hcomment : comment? ('/' :: '/' :: cs) = some ('/' :: '/' :: cs).length := by
    rw [comment?, hline, Nat.add_comm]
    rfl
  refine .orElse_right (.ignore (.lexeme (by simp [blanks?, isBlank]))) (.ignore (.lexeme ?_))
  rwa [List.append_nil]

/-- At the end of a text a gap takes all the layout there. -/
lemma takes_lastLayout (h : LastLayout k) : Takes text gap k [] (fun _ => True) := by
  rcases h.cases with hk | ⟨g, cs, rfl, hg, hcs⟩
  · exact takes_layout hk solid_nil
  obtain ⟨pieces, rfl, hall, hrow⟩ := exists_fillers (r := '/' :: '/' :: cs) text hg (by rfl)
  have hne : ∀ b ∈ pieces ++ ['/' :: '/' :: cs], b ≠ [] := by
    rw [List.forall_mem_append, List.forall_mem_singleton]
    exact ⟨hall, by simp⟩
  have hstep : ∀ l b s, pieces ++ ['/' :: '/' :: cs] = l ++ b :: s →
      Takes text (blanks <|> comment) (id b) (s.flatMap id ++ []) (fun _ => True) := by
    intro l b s hl
    rcases List.eq_nil_or_concat s with rfl | ⟨s, b', rfl⟩
    · obtain ⟨-, hb⟩ := List.append_inj' hl rfl
      obtain rfl := List.singleton_inj.1 hb
      exact takes_lastComment hcs
    · have hcut : pieces ++ ['/' :: '/' :: cs] = (l ++ b :: s) ++ [b'] := by simpa using hl
      obtain ⟨hpieces, hb⟩ := List.append_inj' hcut rfl
      obtain rfl := List.singleton_inj.1 hb
      simpa using hrow l b s hpieces
  have hmany := Takes.many (R := fun _ _ => True) hne hstep (rejects_layout solid_nil)
  rw [List.flatMap_append, List.flatMap_singleton] at hmany
  exact hmany.ignore

/-! ### Statements up to the end of a text -/

def statementList (depth : ℕ) : Rule (List Tree) := do
  gap
  let ns ← statements (statement depth)
  gap
  return ns

/-- A text that is all statements in a row and layout around them. -/
def ListAt (d : ℕ) (p : Position) (text : List Char) (ns : List Tree) : Prop :=
  ∃ us k, text = us ++ k ∧ RowAt (StmtAt d) p us ns ∧ LastLayout k

lemma listAt_relocate (h : ListAt d p text ns) (hc : Carries f p p' text) :
    ListAt d p' text (ns.map (.relocate f)) := by
  obtain ⟨us, k, rfl, hrow, hk⟩ := h
  exact ⟨us, k, rfl, rowAt_relocate (relocates_stmt d) hrow (hc.piece [] k rfl), hk⟩

lemma parts_listAt (h : ListAt d p text ns) : Parts d p text ns := by
  obtain ⟨us, k, rfl, hrow, -⟩ := h
  exact (parts_row (placed_stmt le_rfl) hrow).extend [] k

/-- Layout in front of a row belongs to its first statement, or to what follows the row if there is
none. -/
lemma listAt_behind (hg : LastLayout g) (hlayout : us ++ k ≠ [] → Layout g)
    (h : RowAt (StmtAt d) (p.advance g) us ns) (hk : LastLayout k) :
    ListAt d p (g ++ (us ++ k)) ns := by
  cases h with
  | nil =>
    refine ⟨[], g ++ k, rfl, .nil, ?_⟩
    by_cases hne : k = []
    · rwa [hne, List.append_nil]
    · exact (hlayout hne).append_last hk
  | @cons _ g' us vs n ns hg' hn h =>
    have hne : (g' ++ (us ++ vs)) ++ k ≠ [] := by simp [(firm_stmt hn).ne_nil]
    refine ⟨(g ++ g') ++ (us ++ vs), k, by simp, .cons ((hlayout hne).append hg') ?_ ?_, hk⟩
    · rwa [Position.advance_append]
    · rwa [List.append_assoc, Position.advance_append]

/-- What is read as a statement list is one. -/
lemma listAt_of_accept {c c' : Cursor} (h : statementList d c = .accept ns c')
    (hend : c'.rest = []) : ListAt d c.pos c.rest ns := by
  simp only [statementList, bind_eq_accept, pure_eq_accept] at h
  obtain ⟨_, c₁, hgap, ns, c₂, hns, _, c₃, hgap', rfl, rfl⟩ := h
  obtain ⟨g, hg, hlast, hlayout⟩ := layout_of_gap hgap
  obtain ⟨k, hk, hlast', -⟩ := layout_of_gap hgap'
  obtain ⟨us, hus, hrow⟩ := rowAt_of_run (finds_statement d) (run_of_many hns)
  rw [hend, List.append_nil] at hk
  rw [hus.rest, hk] at hg hlayout
  rw [(moves_gap.took hgap (hg.trans (by rw [hus.rest, hk]))).pos] at hrow
  rw [hg]
  exact listAt_behind hlast hlayout hrow hlast'

/-- Statements in front of the last layout of a text are read to their end. -/
lemma takes_lastRow (hd : 0 < d)
    (hrow : RowAt (StmtAt d) (Position.initial.advance g) us ns)
    (hk : LastLayout k) (htext : text = g ++ (us ++ k)) :
    Takes text (statements (statement d)) us k (· = ns) := by
  obtain ⟨d, rfl⟩ := Nat.exists_eq_succ_of_ne_zero hd.ne'
  have hgap : Takes text gap k [] (fun _ => True) := takes_lastLayout hk
  have helse : NoElse text (k ++ []) := fun _ => .after hgap fun _ _ => .bind (rejects_word rfl)
  have hend : Rejects text (item (statement (d + 1))) (k ++ []) :=
    .after hgap fun _ _ => rejects_statement_nil
  rw [List.append_nil] at helse hend
  exact takes_row (readsStatement (d + 1)) hrow ⟨g, htext, rfl⟩ helse hend

/-- A statement list falls apart into a first gap, statements and a last gap, and where the
statements begin there is no main function. -/
lemma takes_listAt (hd : 0 < d) (h : ListAt d .initial text ns) :
    ∃ g us k, text = g ++ (us ++ k) ∧ Takes text gap g (us ++ k) (fun _ => True) ∧
      Takes text (statements (statement d)) us k (· = ns) ∧
      Takes text gap k [] (fun _ => True) ∧
      Rejects text (mainFunction (statement d)) (us ++ k) := by
  obtain ⟨us, k, htext, hrow, hk⟩ := h
  cases hrow with
  | nil =>
    -- the first gap takes all there is
    have hnil : LastLayout [] := Layout.nil.last
    exact ⟨k, [], [], by simpa using htext, takes_lastLayout hk,
      takes_lastRow hd (g := k) .nil hnil (by simpa using htext), takes_lastLayout hnil,
      rejects_main_of_word _ rfl⟩
  | @cons _ g us vs n ns hg hn hrow =>
    have hcut : text = g ++ ((us ++ vs) ++ k) := by simpa using htext
    have hrow' : RowAt (StmtAt d) (Position.initial.advance g) ([] ++ (us ++ vs)) (n :: ns) :=
      .cons .nil hn (by rwa [List.nil_append, ← Position.advance_append])
    refine ⟨g, us ++ vs, k, hcut, takes_layout hg ?_, takes_lastRow hd hrow' hk hcut,
      takes_lastLayout hk, ?_⟩
    · exact (((firm_stmt hn).append vs).append k).solid
    · rw [List.append_assoc]
      exact rejects_main _ hn _

/-- **Statement lists**: the texts that the rule for a statement list reads to their end are those
of its shape. -/
theorem statementList_iff (hd : 0 < d) :
    (∃ c, statementList d (.ofText text) = .accept ns c ∧ c.rest = []) ↔
      ListAt d .initial text ns := by
  constructor
  · rintro ⟨c, haccept, hend⟩
    exact listAt_of_accept haccept hend
  · intro h
    obtain ⟨g, us, k, htext, hgap, hrow, hgap', -⟩ := takes_listAt hd h
    have htakes : Takes text (statementList d) (g ++ (us ++ k)) [] (· = ns) := by
      refine .bind (by simpa using hgap) fun _ _ => .bind (by simpa using hrow) ?_
      rintro _ rfl
      exact hgap'.map fun _ _ => .pure rfl
    obtain ⟨_, haccept, rfl⟩ := htakes 0 (by simpa using htext)
    rw [← htext, ← ofText_eq_within] at haccept
    exact ⟨_, haccept, by simp [Cursor.within]⟩

/-- The program of a statement list is the statements, with no main function looked into. -/
lemma program_of_listAt (hd : 0 < d) (h : ListAt d .initial text ns) :
    program d (.ofText text) =
      .accept (.program ns (some (.over .initial text))) (.within text text.length) := by
  obtain ⟨g, us, k, htext, hgap, hrow, hgap', hmain⟩ := takes_listAt hd h
  have hs : Sited text .initial ((g ++ (us ++ k)) ++ []) := ⟨[], by simpa using htext, rfl⟩
  have htakes : Takes text (program d) (g ++ (us ++ k)) []
      (· = .program ns (some (.over .initial text))) := by
    refine (Takes.located_at (Q := (· = ns)) ?_ hs).map ?_
    · refine .bind (by simpa using hgap) fun _ _ => ?_
      refine .bind (.orElse_right (by simpa using hmain) (by simpa using hrow)) ?_
      rintro _ rfl
      exact hgap'.map fun _ _ => .pure rfl
    · rintro ⟨parts, span⟩ ⟨(rfl : parts = _), (rfl : span = _)⟩
      rw [← htext]
      exact .pure rfl
  obtain ⟨_, haccept, rfl⟩ := htakes 0 (by simpa using htext)
  rw [← htext, ← ofText_eq_within, Nat.zero_add] at haccept
  exact haccept

end Primer.Grammar
