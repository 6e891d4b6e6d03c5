import Mathlib.Tactic
import Primer.Proofs.StatementList
import Primer.Proofs.StatementText

/-!
Statements and the main function around them.

A statement list reads the same inside a main function as on its own, with its places moved behind
the head of the function. The other way round, what is read between the braces of that function is
the whole list: the closing brace of the function stands on a line of its own, and so no comment of
the list reaches it, and no brace before it closes the function.
-/

namespace Primer

/-- The position that follows from `k` more characters in front of the first line. -/
def Position.shift (k : ℤ) (p : Position) : Position :=
  ⟨p.line, if p.line = 1 then p.column + k else p.column, p.offset + k⟩

/-- The text in a main function. A line end stands in front of the closing brace, because the text
may end in a comment. -/
def inMainFunction (source : String) : String := "int main() \x7b" ++ source ++ "\n\x7d"

namespace Grammar

open Rule Cursor Lexeme Text

variable {text us g k cs w a b : List Char} {p : Position} {n t : Tree} {ns : List Tree} {d : ℕ}

/-! ### Positions behind the head -/

/-- A step goes on from the shifted position as from the position itself. -/
lemma shift_step {q : Position} (k : ℤ) (c : Char) (hq : 1 ≤ q.line) :
    (q.step c).shift k = (q.shift k).step c ∧ 1 ≤ (q.step c).line := by
  have hnext : q.line + 1 ≠ 1 := by omega
  by_cases hc : c = '\n'
  · simp only [Position.step, Position.shift, hc, if_true, if_neg hnext]
    exact ⟨by rw [add_right_comm], by omega⟩
  · simp only [Position.step, Position.shift, if_neg hc]
    refine ⟨?_, hq⟩
    split <;> simp [add_right_comm]

lemma carries_shift (k : ℤ) (hp : 1 ≤ p.line) (us : List Char) :
    Carries (.shift k) p (p.shift k) us := by
  rintro ws -
  induction ws generalizing p with
  | nil => rfl
  | cons c ws ih =>
    obtain ⟨hshift, hline⟩ := shift_step k c hp
    rw [Position.advance_cons, Position.advance_cons, ih hline, hshift]

/-! ### The text of a main function -/

def mainText (cs : List Char) : List Char :=
  "int".toList ++ (" ".toList ++ ("main".toList ++ ("(".toList ++ (")".toList ++ (" ".toList ++
    ("\x7b".toList ++ (cs ++ "\n\x7d".toList)))))))

lemma toList_inMainFunction (source : String) :
    (inMainFunction source).toList = mainText source.toList := by
  simp [inMainFunction, mainText]

lemma solid_mainText (cs : List Char) : Solid (mainText cs) :=
  solid_cons (by decide) (by decide)

/-- The head of the main function is read, and then what stands between braces. -/
lemma mainFunction_mainText (s : Rule Tree) (cs : List Char) :
    mainFunction s (.within (mainText cs) 0) = braced s (.within (mainText cs) 11) := by
  unfold mainFunction
  refine (Takes.bind_within (takes_word (by decide) (wordEnd_cons (by decide))) rfl).trans ?_
  refine (Takes.bind_within (takes_layout layout_blank (solid_cons (by decide) (by decide)))
    rfl).trans ?_
  refine (Takes.bind_within (takes_word (by decide) (wordEnd_cons (by decide))) rfl).trans ?_
  refine (Takes.bind_within (takes_gap_nil (solid_cons (by decide) (by decide))) rfl).trans ?_
  refine (Takes.bind_within (takes_sign "(") rfl).trans ?_
  refine (Takes.bind_within (takes_gap_nil (solid_cons (by decide) (by decide))) rfl).trans ?_
  refine (Takes.bind_within (takes_sign ")") rfl).trans ?_
  exact Takes.bind_within (takes_layout layout_blank (solid_cons (by decide) (by decide))) rfl

/-- Where the head of a main function stands, no statement does. -/
lemma rejects_statement_main : Rejects text (statement (d + 1)) (mainText cs) := by
  have hend : ∀ r, WordEnd (" ".toList ++ r) := fun _ => wordEnd_cons (by decide)
  have hbegins : Begins "int" (mainText cs) := begins_word (Or.inl (by decide)) (hend _)
  have hopen : ∀ r, Solid ("(".toList ++ r) := fun _ => solid_cons (by decide) (by decide)
  refine .orElse (rejects_block hbegins.not_brace) (.orElse (rejects_branch ?_)
    (.orElse (rejects_whileLoop ?_) (.orElse (rejects_returnStatement ?_) (.orElse ?_
    (rejects_assignment ?_)))))
  · exact hbegins.word?_eq_none (by decide) (by decide)
  · exact hbegins.word?_eq_none (by decide) (by decide)
  · exact hbegins.word?_eq_none (by decide) (by decide)
  · -- a declaration of `main` would go on with an equals sign or a semicolon
    refine .bind (.located (.after (takes_textOf (typeName?_append (by decide) (hend _))) ?_))
    rintro _ rfl
    refine .after (takes_layout layout_blank (solid_cons (by decide) (by decide))) fun _ _ => ?_
    refine .after (takes_textOf (x := "main") (name?_append (by decide) (wordEnd_cons (by decide))))
      fun _ _ => ?_
    refine .after_nil (takes_gap_nil (hopen _)) fun _ _ => ?_
    refine .after_nil (.optional_none (.bind (.bind (rejects_sign (by simp))))) fun _ _ => ?_
    exact .after_nil (takes_gap_nil (hopen _)) fun _ _ => .bind (rejects_sign (by simp))
  · have hkey : keyword? (mainText cs) = some 3 := by
      rw [mainText, keyword?_eq, anyWord?_append (fun w hw => all_isWordChar_of_mem_keywords hw)
        (by decide) (hend _), if_pos (by decide)]
      rfl
    simp [name?, hkey]

/-! ### From the list to the function -/

/-- A statement list is read in a main function too. -/
lemma program_of_inner (hd : 0 < d)
    (h : ListAt d (Position.initial.advance "int main() \x7b".toList) cs ns) :
    program d (.ofText (mainText cs)) =
      .accept (.program ns (some (.over .initial (mainText cs))))
        (.within (mainText cs) (mainText cs).length) := by
  obtain ⟨us, k, rfl, hrow, hk⟩ := h
  have hbraced : BracedAt (StmtAt d) (Position.initial.advance "int main() ".toList) _ ns :=
    .mk hrow hk
  have hmain : MainAt (StmtAt d) (Position.initial.advance []) _ ns :=
    .mk layout_blank (by decide) .nil .nil layout_blank hbraced
  refine program_of_body hd .nil (.inl hmain) (k := []) ?_ .nil ?_
  · exact solid_cons (by decide) (by decide)
  · simp [mainText]

/-! ### From the function to the list -/

/-- Behind a line end inside layout there is layout, or the rest of a comment with its closing
sign. -/
lemma Layout.behind_newline (h : Layout w) (hw : w = a ++ '\n' :: b) :
    Layout b ∨ ['*', '/'] <:+: b := by
  induction h generalizing a with
  | nil => simp at hw
  | @blank c r hc h ih =>
    cases a with
    | nil =>
      obtain ⟨-, rfl⟩ := List.cons.inj hw
      exact Or.inl h
    | cons c' a => exact ih (List.cons.inj hw).2
  | @line cs r hcs h ih =>
    have hcut : ('/' :: '/' :: cs) ++ '\n' :: r = a ++ '\n' :: b := by simpa using hw
    rcases List.append_eq_append_iff.1 hcut with ⟨s, rfl, hs⟩ | ⟨s, hs, hs'⟩
    · cases s with
      | nil =>
        obtain ⟨-, rfl⟩ := List.cons.inj hs
        exact Or.inl h
      | cons c s => exact ih (List.cons.inj hs).2
    · cases s with
      | nil =>
        obtain ⟨-, rfl⟩ := List.cons.inj hs'
        exact Or.inl h
      | cons c s =>
        -- the first line end is the one that ends the comment
        obtain ⟨rfl, -⟩ := List.cons.inj hs'
        have hmem : '\n' ∈ '/' :: '/' :: cs := by simp [hs]
        simp [hcs] at hmem
  | @block cs r hcs h ih =>
    have hcut : ('/' :: '*' :: (cs ++ ['*', '/'])) ++ r = a ++ '\n' :: b := by simpa using hw
    rcases List.append_eq_append_iff.1 hcut with ⟨s, rfl, hs⟩ | ⟨s, hs, hs'⟩
    · exact ih hs
    · cases s with
      | nil => exact ih (a := []) hs'.symm
      | cons c s =>
        obtain ⟨rfl, rfl⟩ := List.cons.inj hs'
        -- the line end is inside the comment, and so the closing sign follows it
        have hsuffix : ['*', '/'] <:+ '\n' :: s := by
          have hleft : ['*', '/'] <:+ '/' :: '*' :: (cs ++ ['*', '/']) :=
            ⟨'/' :: '*' :: cs, by simp⟩
          have hright : '\n' :: s <:+ '/' :: '*' :: (cs ++ ['*', '/']) := ⟨a, hs.symm⟩
          rcases List.suffix_or_suffix_of_suffix hleft hright with hclose | hclose
          · exact hclose
          · have hmem : '\n' ∈ ['*', '/'] := hclose.subset (by simp)
            simp at hmem
        have hclose : ['*', '/'] <:+ s := by
          rcases List.suffix_cons_iff.1 hsuffix with heq | hclose
          · simp at heq
          · exact hclose
        exact Or.inr (hclose.isInfix.trans (List.prefix_append s r).isInfix)

def Closed (us : List Char) : Prop := ∃ vs c, us = vs ++ [c] ∧ c ≠ '\n'

lemma Closed.behind (vs : List Char) (h : Closed us) : Closed (vs ++ us) := by
  obtain ⟨ws, c, rfl, hc⟩ := h
  exact ⟨vs ++ ws, c, by simp, hc⟩

/-- A statement ends in a semicolon or in a closing brace. -/
lemma closed_stmt (h : StmtAt d p us n) : Closed us := by
  have hsemicolon : Closed ";".toList := ⟨[], ';', rfl, by decide⟩
  have hbrace : Closed "\x7d".toList := ⟨[], '\x7d', rfl, by decide⟩
  induction d generalizing p us n with
  | zero => exact h.elim
  | succ d ih =>
    -- only the last part counts, and that is a sign or a smaller statement
    have hguard : ∀ {w us e b}, GuardAt w (ExprAt d) (StmtAt d) p us e b → Closed us := by
      rintro w us e b ⟨hg₁, hg₂, he, hg₃, hg₄, hb⟩
      repeat apply Closed.behind
      exact ih hb
    cases h with
    | branch h | whileLoop h => exact hguard h
    | branchElse h hopen hg hk hend ho hus =>
      rw [hus]
      repeat apply Closed.behind
      exact ih ho
    | block hd h =>
      obtain ⟨h, hg⟩ := h
      repeat apply Closed.behind
      exact hbrace
    | declare | declareAs | assign | ret | retValue =>
      rename_i hus
      rw [hus]
      repeat apply Closed.behind
      exact hsemicolon

lemma closed_row (h : RowAt (StmtAt d) p us ns) : us = [] ∨ Closed us := by
  induction h with
  | nil => exact Or.inl rfl
  | @cons p g us vs n ns hg hn _ ih =>
    rcases ih with rfl | ih
    · rw [List.append_nil]
      exact Or.inr ((closed_stmt hn).behind g)
    · exact Or.inr ((ih.behind us).behind g)

/-- No layout at the end of a text reaches over the last brace if this has a line of its own. -/
lemma eq_nil_of_lastLayout (hk : LastLayout k) (h : k <:+ cs ++ ['\n', '\x7d']) : k = [] := by
  have hbrace : ¬ Layout ['\x7d', '\n'] := by
    rintro ⟨⟩
    contradiction
  have hlong : ∀ k', k ≠ k' ++ ['\n', '\x7d'] := by
    rintro k' rfl
    have hcut : (k' ++ ['\n', '\x7d']) ++ ['\n'] = k' ++ '\n' :: ['\x7d', '\n'] := by simp
    rcases Layout.behind_newline hk hcut with hlayout | hclose
    · exact hbrace hlayout
    · exact absurd hclose (by decide)
  rcases List.suffix_or_suffix_of_suffix h (List.suffix_append cs _) with hshort | ⟨k', hk'⟩
  · rcases List.suffix_cons_iff.1 hshort with rfl | hshort
    · exact absurd rfl (hlong [])
    rcases List.suffix_cons_iff.1 hshort with rfl | hshort
    · exact absurd hk hbrace
    · exact List.suffix_nil.1 hshort
  · exact absurd hk'.symm (hlong k')

/-- What stands between the braces of the main function is the whole list. -/
lemma listAt_of_braced (h : BracedAt (StmtAt d) p us ns) (hk : LastLayout k)
    (htext : us ++ k = "\x7b".toList ++ (cs ++ ['\n', '\x7d'])) :
    ListAt d (p.advance "\x7b".toList) cs ns := by
  obtain @⟨us, g, ns, hrow, hg⟩ := h
  have hinner : (us ++ g) ++ ('\x7d' :: k) = cs ++ ['\n', '\x7d'] := by simpa using htext
  obtain rfl : k = [] := by
    have hsuffix : k <:+ cs ++ ['\n', '\x7d'] := by
      rw [← hinner]
      exact ⟨(us ++ g) ++ ['\x7d'], by simp⟩
    exact eq_nil_of_lastLayout hk hsuffix
  have hcut : (us ++ g) ++ ['\x7d'] = (cs ++ ['\n']) ++ ['\x7d'] := by simpa using hinner
  obtain ⟨hlines, -⟩ := List.append_inj' hcut rfl
  -- the line end in front of the brace is layout, because no statement ends in one
  rcases List.eq_nil_or_concat g with rfl | ⟨g, c, rfl⟩
  · rw [List.append_nil] at hlines
    rcases closed_row hrow with rfl | ⟨vs, c, rfl, hc⟩
    · simp at hlines
    · obtain ⟨-, hlast⟩ := List.append_inj' hlines rfl
      exact absurd (List.singleton_inj.1 hlast) hc
  · rw [List.concat_eq_append] at hlines hg
    rw [← List.append_assoc] at hlines
    obtain ⟨rfl, hlast⟩ := List.append_inj' hlines rfl
    obtain rfl := List.singleton_inj.1 hlast
    exact ⟨us, g, rfl, hrow, hg⟩

/-- No gap stands in front of the function. -/
lemma eq_of_gap_mainText {u : Unit} {c : Cursor}
    (h : gap (.within (mainText cs) 0) = .accept u c) : c = .within (mainText cs) 0 := by
  have htakes : Takes (mainText cs) gap [] (mainText cs) (fun _ => True) :=
    takes_gap_nil (solid_mainText cs)
  obtain ⟨_, haccept, -⟩ := htakes 0 rfl
  exact (Reply.accept.inj (h.symm.trans haccept)).2

/-- What is read from the text of a main function is the list inside. -/
lemma listAt_of_program {c : Cursor} (hd : 0 < d)
    (h : program d (.ofText (mainText cs)) = .accept t c) (hend : c.rest = []) :
    ∃ ns, ListAt d (Position.initial.advance "int main() \x7b".toList) cs ns := by
  obtain ⟨d, rfl⟩ := Nat.exists_eq_succ_of_ne_zero hd.ne'
  obtain ⟨ns, c₃, hparts, hpure⟩ := located_bind_eq_accept.1 h
  obtain ⟨rfl, rfl⟩ := pure_eq_accept.1 hpure
  simp only [bind_eq_accept, pure_eq_accept] at hparts
  obtain ⟨_, c₁, hgap, ns, c₂, hbody, _, c₃, hgap', rfl, rfl⟩ := hparts
  rw [ofText_eq_within] at hgap
  obtain rfl := eq_of_gap_mainText hgap
  rcases orElse_eq_accept.1 hbody with hmain | ⟨-, hrow⟩
  · rw [mainFunction_mainText] at hmain
    obtain ⟨us, hus, hbraced⟩ := took_braced (finds_statement _) hmain
    obtain ⟨k, hk, hlast, -⟩ := layout_of_gap hgap'
    rw [hend, List.append_nil] at hk
    have htext : us ++ k = "\x7b".toList ++ (cs ++ ['\n', '\x7d']) := by
      rw [← hk, ← hus.rest]
      rfl
    exact ⟨ns, listAt_of_braced hbraced hlast htext⟩
  · -- a row of statements would be empty there, and the text is not
    have hitem : Rejects (mainText cs) (item (statement (d + 1))) (mainText cs) :=
      .after_nil (takes_gap_nil (solid_mainText cs)) fun _ _ => rejects_statement_main
    have hnone : statements (statement (d + 1)) (.within (mainText cs) 0) =
        .accept [] (.within (mainText cs) 0) :=
      many_of_run .nil (by simp) (hitem 0 rfl)
    obtain ⟨rfl, rfl⟩ := Reply.accept.inj (hrow.symm.trans hnone)
    obtain rfl := eq_of_gap_mainText hgap'
    simp [Cursor.within, mainText] at hend

/-! ### Programs -/

variable {depth : ℕ}

/-- Layout, statements in a row and layout match the text to its end. -/
def IsStatementList (depth : ℕ) (source : String) : Prop :=
  ∃ ps c, Pieces.row [Pieces.gap, Pieces.statements (Pieces.statement (depth + 1)), Pieces.gap]
    (.ofText source.toList) = .accept ps c ∧ c.rest = []

lemma isStatementList_iff {source : String} :
    IsStatementList depth source ↔ ∃ ns, ListAt (depth + 1) .initial source.toList ns := by
  have hrow := builds_gap.skip <| (builds_statements (builds_statement (depth + 1))).cons fun ns =>
    builds_gap.skip <| @buildsRow_nil _ source.toList ns
  have hsame (c : Cursor) := hrow.accept_iff (Nat.zero_le _) (c := c)
  simp only [← ofText_eq_within] at hsame
  constructor
  · rintro ⟨ps, c, haccept, hend⟩
    obtain ⟨ns, hns⟩ := (hsame c).1 ⟨ps, haccept⟩
    exact ⟨ns, (statementList_iff (Nat.succ_pos depth)).1 ⟨c, hns, hend⟩⟩
  · rintro ⟨ns, hlist⟩
    obtain ⟨c, hns, hend⟩ := (statementList_iff (Nat.succ_pos depth)).2 hlist
    obtain ⟨ps, haccept⟩ := (hsame c).2 ⟨ns, hns⟩
    exact ⟨ps, c, haccept, hend⟩

def programOver (source : String) (ns : List Tree) : Tree :=
  .program ns (some (.over .initial source.toList))

/-- The statements of a list that was read are a program, if their whole numbers are not too long
and they are not nested too deep. -/
lemma parse_eq_programOver {source : String} {c : Cursor}
    (h : program (depth + 1) (.ofText source.toList) = .accept (programOver source ns) c)
    (hend : c.rest = []) :
    parse depth source = .ok (programOver source ns) ↔
      (∀ n ∈ ns, ∀ m ∈ n.walk, longInteger? source.toList m = none) ∧
        (programOver source ns).height ≤ Node.maxLevels := by
  have hwalk : (∀ m ∈ (programOver source ns).walk, longInteger? source.toList m = none) ↔
      ∀ n ∈ ns, ∀ m ∈ n.walk, longInteger? source.toList m = none := by
    rw [programOver, Node.walk_eq, List.forall_mem_cons, Node.children, List.forall_mem_flatMap]
    exact and_iff_right rfl
  rw [parse_eq_ok, hwalk]
  constructor
  · rintro ⟨c', hprogram, -, hrest⟩
    exact hrest
  · intro hrest
    exact ⟨c, h, hend, hrest⟩

/-- The whole numbers of a list keep their digits in the main function. -/
lemma longInteger?_mainText (h : ListAt d .initial cs ns) (hn : n ∈ ns) (hm : t ∈ n.walk) :
    longInteger? (mainText cs) (t.relocate (.shift 12)) = longInteger? cs t := by
  obtain ⟨a, w, b, rfl, hseated⟩ := (parts_listAt h).placed n hn t hm
  have hcarries : Carries (.shift 12) .initial (Position.initial.shift 12) (a ++ (w ++ b)) :=
    carries_shift 12 (by decide) _
  refine longInteger?_relocate hseated.location (hcarries.piece a b rfl) ?_
  -- both slices are the text of the node
  have hhead : Position.initial.shift 12 = Position.initial.advance "int main() \x7b".toList := rfl
  have htext : mainText (a ++ (w ++ b)) =
      ("int main() \x7b".toList ++ a) ++ (w ++ (b ++ ['\n', '\x7d'])) := by
    simp [mainText]
  rw [slice_over, htext, hhead, ← Position.advance_append, slice_over]

/-- The two ways to read a list. -/
lemma parse_inMainFunction_iff {source : String}
    (h : ListAt (depth + 1) .initial source.toList ns) :
    parse depth (inMainFunction source) =
        .ok (programOver (inMainFunction source) (ns.map (.relocate (.shift 12)))) ↔
      parse depth source = .ok (programOver source ns) := by
  have hcarries : Carries (.shift 12) .initial (Position.initial.shift 12) source.toList :=
    carries_shift 12 (by decide) _
  have hinner := program_of_inner (Nat.succ_pos depth) (listAt_relocate h hcarries)
  rw [← toList_inMainFunction] at hinner
  have hheight : (programOver (inMainFunction source) (ns.map (.relocate (.shift 12)))).height =
      (programOver source ns).height := by
    rw [← Node.relocateAll_eq_map]
    exact Node.height_relocate (programOver source ns)
  rw [parse_eq_programOver hinner (by simp [Cursor.within]),
    parse_eq_programOver (program_of_listAt (Nat.succ_pos depth) h) (by simp [Cursor.within]),
    hheight]
  refine and_congr_left fun _ => ?_
  simp only [List.forall_mem_map, Node.walk_relocate, toList_inMainFunction]
  refine forall₂_congr fun n hn => forall₂_congr fun m hm => ?_
  rw [longInteger?_mainText h hn hm]

/-- **The main function is transparent**: a statement list that is read as a program is read in a
main function too, as the same statements with their places moved by the twelve characters of the
head. And only statement lists are read in this main function. -/
theorem parse_inMainFunction (depth : ℕ) (source : String) :
    (∀ t, IsStatementList depth source → parse depth source = .ok t → ∃ ns,
      t = programOver source ns ∧ parse depth (inMainFunction source) =
        .ok (programOver (inMainFunction source) (ns.map (.relocate (.shift 12))))) ∧
    (∀ t, parse depth (inMainFunction source) = .ok t → IsStatementList depth source ∧ ∃ ns,
      parse depth source = .ok (programOver source ns) ∧
      t = programOver (inMainFunction source) (ns.map (.relocate (.shift 12)))) := by
  refine ⟨fun t hlist hparse => ?_, fun t hparse => ?_⟩
  · obtain ⟨ns, hshape⟩ := isStatementList_iff.1 hlist
    obtain ⟨c, hprogram, -⟩ := program_of_parse hparse
    obtain ⟨rfl, -⟩ := Reply.accept.inj
      (hprogram.symm.trans (program_of_listAt (Nat.succ_pos depth) hshape))
    exact ⟨ns, rfl, (parse_inMainFunction_iff hshape).2 hparse⟩
  · obtain ⟨c, hprogram, hend⟩ := program_of_parse hparse
    have htext := toList_inMainFunction source
    obtain ⟨ms, hinner⟩ := listAt_of_program (Nat.succ_pos depth) (htext ▸ hprogram) hend
    -- the statements as they stand at the start of the text
    have hback : ListAt (depth + 1) .initial source.toList (ms.map (.relocate (.shift (-12)))) :=
      listAt_relocate hinner (carries_shift (-12) (by decide) _)
    have hagain := program_of_inner (Nat.succ_pos depth)
      (listAt_relocate hback (carries_shift 12 (by decide) source.toList))
    rw [← htext] at hagain
    obtain ⟨rfl, -⟩ := Reply.accept.inj (hprogram.symm.trans hagain)
    exact ⟨isStatementList_iff.2 ⟨_, hback⟩, _, (parse_inMainFunction_iff hback).1 hparse, rfl⟩

def mainVariable : String :=
  "int main = 1;\nif (main > 0) main = -2; // positive"

theorem parse_inMainFunction_mainVariable : ∃ t, IsStatementList 3 mainVariable ∧
    parse 3 mainVariable = .ok t ∧ t.children.map Node.kind = ["VariableDecl", "IfStatement"] ∧
    ∃ ns, t = programOver mainVariable ns ∧ parse 3 (inMainFunction mainVariable) =
      .ok (programOver (inMainFunction mainVariable) (ns.map (.relocate (.shift 12)))) := by
  have hread : (parse 3 (inMainFunction mainVariable)).map (fun _ => ()) = .ok () := by
    decide +kernel
  obtain ⟨_, hinner, -⟩ := exists_of_map_parse hread
  obtain ⟨hlist, ns, hparse, -⟩ := (parse_inMainFunction 3 mainVariable).2 _ hinner
  have hkinds : (parse 3 mainVariable).map (fun t => t.children.map Node.kind) =
      .ok ["VariableDecl", "IfStatement"] := by
    decide +kernel
  rw [hparse] at hkinds
  exact ⟨_, hlist, hparse, Except.ok.inj hkinds,
    (parse_inMainFunction 3 mainVariable).1 _ hlist hparse⟩

end Grammar

end Primer
