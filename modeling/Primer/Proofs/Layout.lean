import Mathlib.Data.List.TakeWhile
import Mathlib.Tactic
import Primer.Proofs.DirectRules
import Primer.Proofs.RuleAccepts

/-!
Tokens and what may stand between them.

A text that the rules take apart is a row of tokens with layout in front of each: blanks and whole
comments. `Laid ts text rest` says that the text goes on with the tokens `ts` in this way and then
with `rest`. A gap that the grammar skips is layout, unless it ends with the text: there a comment
to the end of its line needs no line end.
-/

namespace Primer.Grammar

open Rule Lexeme Text

variable {c c' : Cursor} {r r' r'' : List Char} {ts us : List String} {u : Unit}

/-- Blanks and whole comments in a row. A comment that runs to the end of its line is whole with the
line end, and one between signs with the first closing sign. -/
inductive Layout : List Char → Prop
  | nil : Layout []
  | blank {c : Char} {r : List Char} (hc : isBlank c) (h : Layout r) : Layout (c :: r)
  | line {cs r : List Char} (hcs : '\n' ∉ cs) (h : Layout r) :
    Layout ('/' :: '/' :: (cs ++ '\n' :: r))
  | block {cs r : List Char} (hcs : ¬ ['*', '/'] <:+: cs ++ ['*']) (h : Layout r) :
    Layout ('/' :: '*' :: (cs ++ '*' :: '/' :: r))

lemma layout_blank : Layout [' '] := .blank (by decide) .nil

/-- The text is made of tokens, each behind some layout, and then goes on with the rest. -/
inductive Laid : List String → List Char → List Char → Prop
  | nil {r : List Char} : Laid [] r r
  | cons {g : List Char} {t : String} {ts : List String} {r r' : List Char} (hg : Layout g)
    (ht : t ≠ "") (h : Laid ts r r') : Laid (t :: ts) (g ++ (t.toList ++ r)) r'

lemma Layout.append {g h : List Char} (hg : Layout g) (hh : Layout h) : Layout (g ++ h) := by
  induction hg with
  | nil => exact hh
  | blank hc _ ih => exact .blank hc ih
  | line hcs _ ih => simpa using Layout.line hcs ih
  | block hcs _ ih => simpa using Layout.block hcs ih

lemma layout_of_blanks {bs : List Char} (h : ∀ b ∈ bs, isBlank b) : Layout bs := by
  induction bs with
  | nil => exact .nil
  | cons b bs ih => exact .blank (h b (by simp)) (ih fun d hd => h d (by simp [hd]))

/-- A blank in front of layout can be taken away. -/
lemma Layout.of_cons_blank {b : Char} (hb : isBlank b) (h : Layout (b :: r)) : Layout r := by
  have hslash : isBlank '/' = false := by decide
  cases h with
  | blank _ h => exact h
  | line | block => simp [hslash] at hb

lemma Laid.append (h : Laid ts r r') (h' : Laid us r' r'') : Laid (ts ++ us) r r'' := by
  induction h with
  | nil => exact h'
  | cons hg ht _ ih => exact .cons hg ht (ih h')

/-- A token right where the text goes on. -/
lemma laid_token {t : String} (ht : t ≠ "") (h : r = t.toList ++ r') : Laid [t] r r' := by
  have hlaid : Laid [t] ([] ++ (t.toList ++ r')) r' := .cons .nil ht .nil
  rwa [List.nil_append, ← h] at hlaid

/-! ### Comments and blanks -/

lemma take_length_takeWhile {f : Char → Bool} (cs : List Char) :
    cs.take (cs.takeWhile f).length = cs.takeWhile f :=
  (List.prefix_iff_eq_take.1 (List.takeWhile_prefix f)).symm

/-- Behind the longest part in a class the text ends or leaves the class. -/
lemma rest_of_takeWhile {f : Char → Bool} {cs : List Char} (h : cs = cs.takeWhile f ++ r) :
    r = [] ∨ ∃ d r', r = d :: r' ∧ f d = false := by
  have hdrop : cs.dropWhile f = r := by
    have hsplit := List.takeWhile_append_dropWhile (p := f) (l := cs)
    exact List.append_cancel_left (hsplit.trans h)
  have hhead := List.head?_dropWhile_not f cs
  rw [hdrop] at hhead
  cases r with
  | nil => exact Or.inl rfl
  | cons d r' => exact Or.inr ⟨d, r', rfl, hhead⟩

/-- A comment between signs ends at the first closing sign. -/
lemma take_commentEnd {n : ℕ} (h : commentEnd? r = some n) :
    ∃ cs, r.take n = cs ++ ['*', '/'] ∧ ¬ ['*', '/'] <:+: cs ++ ['*'] := by
  fun_induction commentEnd? r generalizing n with
  | case1 r =>
    obtain rfl : 2 = n := Option.some.inj h
    exact ⟨[], rfl, by decide⟩
  | case2 c r hfirst ih =>
    obtain ⟨m, hm, rfl⟩ := Option.map_eq_some_iff.1 h
    obtain ⟨cs, htake, hno⟩ := ih hm
    refine ⟨c :: cs, ?_, ?_⟩
    · rw [Nat.add_comm, List.take_succ_cons, htake]
      rfl
    · rw [List.cons_append, List.infix_cons_iff, not_or]
      refine ⟨fun hpre => ?_, hno⟩
      -- a closing sign that starts one character earlier would have been found first
      obtain ⟨rfl, hslash⟩ := List.cons_prefix_cons.1 hpre
      cases cs with
      | nil => simp at hslash
      | cons d cs =>
        obtain ⟨rfl, -⟩ := List.cons_prefix_cons.1 hslash
        cases r with
        | nil => simp at htake
        | cons d r =>
          cases m with
          | zero => simp at htake
          | succ m =>
            obtain ⟨rfl, -⟩ := List.cons.inj htake
            exact hfirst r rfl rfl
  | case3 => simp at h

/-- What one step of a gap takes from the text: some blanks, a comment up to the end of its line,
or a comment between signs. -/
inductive Filler : List Char → List Char → Prop
  | blanks {bs r : List Char} (hne : bs ≠ []) (hbs : ∀ b ∈ bs, isBlank b) : Filler (bs ++ r) r
  | line {cs r : List Char} (hcs : '\n' ∉ cs) (hr : r = [] ∨ ∃ r', r = '\n' :: r') :
    Filler ('/' :: '/' :: (cs ++ r)) r
  | block {cs r : List Char} (hcs : ¬ ['*', '/'] <:+: cs ++ ['*']) :
    Filler ('/' :: '*' :: (cs ++ '*' :: '/' :: r)) r

lemma filler_of_blanks (h : blanks c = .accept u c') : Filler c.rest c'.rest := by
  obtain ⟨bs, hbs⟩ := ignore_eq_accept.1 h
  obtain ⟨n, hn, hcs, hrest⟩ := lexeme_eq_accept hbs
  unfold blanks? at hn
  split at hn
  · cases hn
  · rename_i hne
    obtain rfl := Option.some.inj hn
    rw [take_length_takeWhile] at hcs
    rw [hrest]
    refine .blanks ?_ fun b hb => ?_
    · rintro rfl
      exact hne (by rw [← hcs]; rfl)
    · rw [hcs] at hb
      exact List.mem_takeWhile_imp hb

lemma filler_of_comment (h : comment c = .accept u c') : Filler c.rest c'.rest := by
  obtain ⟨cs, hcs⟩ := ignore_eq_accept.1 h
  obtain ⟨n, hn, rfl, hrest⟩ := lexeme_eq_accept hcs
  unfold comment? at hn
  split at hn
  · rename_i r hr
    obtain rfl := Option.some.inj hn
    have htake : ('/' :: '/' :: r).take (2 + (r.takeWhile (· ≠ '\n')).length) =
        '/' :: '/' :: r.takeWhile (· ≠ '\n') := by
      rw [Nat.add_comm, List.take_succ_cons, List.take_succ_cons, take_length_takeWhile]
    rw [hr, htake] at hrest
    have hline : r = r.takeWhile (· ≠ '\n') ++ c'.rest := by simpa using hrest
    rw [hr, hrest]
    refine .line (fun hmem => ?_) ?_
    · simpa using List.mem_takeWhile_imp hmem
    · rcases rest_of_takeWhile hline with hnil | ⟨d, r', hd, hend⟩
      · exact Or.inl hnil
      · exact Or.inr ⟨r', by rw [hd]; simpa using hend⟩
  · rename_i r hr
    obtain ⟨m, hm, rfl⟩ := Option.map_eq_some_iff.1 hn
    obtain ⟨cs, htake, hno⟩ := take_commentEnd hm
    have hopen : ('/' :: '*' :: r).take (2 + m) = '/' :: '*' :: (cs ++ ['*', '/']) := by
      rw [Nat.add_comm, List.take_succ_cons, List.take_succ_cons, htake]
    rw [hr, hopen] at hrest
    rw [hr, hrest]
    simpa using Filler.block hno
  · cases hn

lemma filler_of_accept (h : (blanks <|> comment) c = .accept u c') : Filler c.rest c'.rest := by
  rw [orElse_eq_accept] at h
  rcases h with h | ⟨-, h⟩
  · exact filler_of_blanks h
  · exact filler_of_comment h

lemma progresses_filler : Progresses (blanks <|> comment) := by
  intro c u c' h
  have hfiller := filler_of_accept h
  generalize c.rest = cs at hfiller ⊢
  generalize c'.rest = r at hfiller ⊢
  cases hfiller with
  | blanks hne _ =>
    have hpos := List.length_pos_iff.2 hne
    rw [List.length_append]
    omega
  | line | block =>
    simp only [List.length_cons, List.length_append]
    omega

/-! ### Gaps -/

/-- Steps of a gap up to a place where no blank follows. -/
lemma layout_of_run {us : List Unit} (h : Run (blanks <|> comment) c us c')
    (hend : c'.rest.head?.any isBlank = false) :
    ∃ g, c.rest = g ++ c'.rest ∧ Layout (g ++ ['\n']) ∧ (c'.rest ≠ [] → Layout g) := by
  have hbreak : isBlank '\n' := by decide
  induction h with
  | nil => exact ⟨[], rfl, .blank hbreak .nil, fun _ => .nil⟩
  | @cons c c₁ c' u us ha _ ih =>
    obtain ⟨g, hg, hlast, hinner⟩ := ih hend
    have hfiller := filler_of_accept ha
    generalize c.rest = cs at hfiller ⊢
    generalize hrest : c₁.rest = r at hfiller hg
    cases hfiller with
    | @blanks bs r _ hbs =>
      have hblanks := layout_of_blanks hbs
      refine ⟨bs ++ g, by rw [hg, List.append_assoc], ?_, fun hne => hblanks.append (hinner hne)⟩
      rw [List.append_assoc]
      exact hblanks.append hlast
    | @block cs r hcs =>
      refine ⟨'/' :: '*' :: (cs ++ '*' :: '/' :: g), by simp [hg], ?_, fun hne => ?_⟩
      · simpa using Layout.block hcs hlast
      · exact .block hcs (hinner hne)
    | @line cs r hcs hr =>
      rcases hr with rfl | ⟨r', rfl⟩
      · -- the comment ends with the text
        obtain ⟨rfl, hnil⟩ := List.append_eq_nil_iff.1 hg.symm
        refine ⟨'/' :: '/' :: cs, by simp [hnil], ?_, fun hne => absurd hnil hne⟩
        simpa using Layout.line hcs .nil
      · -- the line end is part of the gap, because no blank follows the gap
        cases g with
        | nil =>
          rw [List.nil_append] at hg
          simp [← hg, hbreak] at hend
        | cons d g =>
          obtain ⟨rfl, hg⟩ := List.cons.inj hg
          refine ⟨'/' :: '/' :: (cs ++ '\n' :: g), by simp [hg], ?_, fun hne => ?_⟩
          · simpa using Layout.line hcs (hlast.of_cons_blank hbreak)
          · exact .line hcs ((hinner hne).of_cons_blank hbreak)

/-- Behind a gap comes neither a blank nor a comment. -/
lemma stops_of_gap (h : gap c = .accept u c') :
    c'.rest.head?.any isBlank = false ∧ comment? c'.rest = none := by
  obtain ⟨us, hus⟩ := ignore_eq_accept.1 h
  rcases progresses_filler.stops hus with hreject | hnil
  · obtain ⟨hblanks, hcomment⟩ := orElse_eq_reject.1 hreject
    have hnone := lexeme_eq_reject.1 (ignore_eq_reject.1 hblanks)
    refine ⟨?_, lexeme_eq_reject.1 (ignore_eq_reject.1 hcomment)⟩
    cases hr : c'.rest with
    | nil => rfl
    | cons d r =>
      by_contra hblank
      have hd : isBlank d := by simpa using hblank
      simp [blanks?, hr, hd] at hnone
  · rw [hnil]
    exact ⟨rfl, rfl⟩

/-- A gap takes layout, which at the end of the text may lack its last line end. -/
lemma layout_of_gap (h : gap c = .accept u c') :
    ∃ g, c.rest = g ++ c'.rest ∧ Layout (g ++ ['\n']) ∧ (c'.rest ≠ [] → Layout g) := by
  obtain ⟨us, hus⟩ := ignore_eq_accept.1 h
  exact layout_of_run (run_of_many hus) (stops_of_gap h).1

/-- Layout in front of tokens belongs to the first of them. -/
lemma Laid.behind_gap (h : Laid ts c'.rest r) (hne : ts ≠ []) (hgap : gap c = .accept u c') :
    Laid ts c.rest r := by
  obtain ⟨g, hg, -, hlayout⟩ := layout_of_gap hgap
  generalize hrest : c'.rest = r' at h hg hlayout
  cases h with
  | nil => exact absurd rfl hne
  | @cons g' t ts r' _ hg' ht h =>
    have hne' : g' ++ (t.toList ++ r') ≠ [] := by
      have htext : t.toList ≠ [] := fun hnil => ht (String.toList_inj.1 hnil)
      simp [htext]
    rw [hg, ← List.append_assoc]
    exact .cons ((hlayout hne').append hg') ht h

end Primer.Grammar
