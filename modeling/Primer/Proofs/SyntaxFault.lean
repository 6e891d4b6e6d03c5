import Mathlib.Tactic
import Primer.Proofs.ProgramShapes

/-!
Where a syntax error is reported.

The rule for a program always accepts some beginning of a text. If more follows, that is where the
error is reported. Cutting the text there changes nothing of what was read before: every decision on
the way was settled by the text that was taken, however far the rules had looked ahead.
-/

namespace Primer

namespace Grammar

open Rule Cursor Lexeme Text

variable {text us g k r : List Char} {c c' : Cursor} {d : ℕ} {ns : List Tree}

/-- Some beginning of a text is always a program, and be it the empty one. -/
lemma program_ne_reject : program d c ≠ .reject := by
  have hgap (c : Cursor) : gap c ≠ .reject := fun h => many_ne_reject (ignore_eq_reject.1 h)
  have hbody (c : Cursor) : body (statement d) c ≠ .reject :=
    fun h => many_ne_reject (orElse_eq_reject.1 h).2
  intro h
  simp only [program, bind_eq_reject, located_eq_reject] at h
  rcases h with (h | ⟨_, c₁, -, h | ⟨_, c₂, -, h | ⟨_, c₃, -, h⟩⟩⟩) | ⟨_, _, -, h⟩
  · exact hgap _ h
  · exact hbody _ h
  · exact hgap _ h
  · cases h
  · cases h

/-- A text is refused as unexpected where a program has been read and the text goes on. -/
lemma program_of_unexpected {depth : ℕ} {source quote : String} {span : Span}
    (h : parse depth source = .error (.unexpected quote span)) :
    ∃ t c, program (depth + 1) (.ofText source.toList) = .accept t c ∧ c.rest ≠ [] ∧
      quote = snippet c.rest ∧ span = ⟨c.pos, c.pos.advance (c.rest.take 1)⟩ := by
  rw [parse_eq_parseDirectly] at h
  unfold parseDirectly at h
  dsimp only at h
  split at h
  · cases h
  · rename_i hreject
    exact absurd hreject program_ne_reject
  · rename_i t c haccept
    split at h
    · unfold accepted at h
      split at h
      · cases h
      · split at h <;> cases h
    · rename_i hrest
      obtain ⟨rfl, rfl⟩ := ParseFault.unexpected.inj (Except.error.inj h)
      exact ⟨t, c, haccept, by simpa using hrest, rfl, rfl⟩

/-- What is quoted from a text that goes on with no blank is not empty. -/
lemma snippet_ne_empty (hne : r ≠ []) (hsolid : Solid r) : snippet r ≠ "" := by
  obtain ⟨x, r, rfl⟩ := List.exists_cons_of_ne_nil hne
  have hx : x ≠ '\n' := by
    rintro rfl
    obtain ⟨hblank, -⟩ := hsolid
    rw [List.head?_cons] at hblank
    exact absurd hblank (by decide)
  intro hnil
  have := congrArg String.toList hnil
  simp [snippet, hx] at this

/-- Cut off behind the layout that follows, the body still stands where no layout begins. -/
lemma solid_body {p : Position} (h : BodyAt d p us ns) (hk : Layout k)
    (hsolid : Solid (us ++ (k ++ r))) : Solid (us ++ k) := by
  rcases h with h | h
  · cases h
    exact solid_cons (by decide) (by decide)
  · cases h with
    | nil =>
      rw [layout_eq_nil hk hsolid]
      exact solid_nil
    | cons hg hn h =>
      rw [List.append_assoc] at hsolid
      obtain rfl := layout_eq_nil hg hsolid
      simpa using ((firm_stmt hn).append _).solid

structure Misplaced (depth : ℕ) (text : List Char) (quote : String) (i : ℕ) : Prop where
  inside : i < text.length
  not_blank : ∀ x, text[i]? = some x → isBlank x = false
  no_comment : Pieces.comment (.within text i) = .reject
  quoted : quote ≠ ""
  /-- The text before is a program. -/
  before : ∃ n, Pieces.program (depth + 1) (.ofText (text.take i)) =
    .accept n (.within (text.take i) i)
  /-- The text before is a main function with layout around it, or no statement follows. -/
  behind : (∃ g us k n, text.take i = g ++ (us ++ k) ∧ Layout g ∧ Layout k ∧
      Pieces.mainFunction (Pieces.statement (depth + 1)) (.within (text.take i) g.length) =
        .accept n (.within (text.take i) (g.length + us.length))) ∨
    Pieces.statement (depth + 1) (.within text i) = .reject

/-- **Where a syntax error is reported**: a text that is refused as unexpected goes on at the place
that is reported with neither a blank nor a whole comment. There is something to quote, and so the
message never says that the text ended. All that stands before is read as a program; and that is a
main function with layout around it, or no statement stands at the place. -/
theorem misplaced_of_unexpected {depth : ℕ} {source quote : String} {span : Span}
    (h : parse depth source = .error (.unexpected quote span)) :
    ∃ i : ℕ, span = ⟨.ofIndex source.toList i, .ofIndex source.toList (i + 1)⟩ ∧
      (ParseFault.unexpected quote span).diagnostic.message =
        "Syntax Error: unexpected '" ++ quote ++ "'." ∧
      Misplaced depth source.toList quote i := by
  obtain ⟨t, c, hprogram, hne, rfl, rfl⟩ := program_of_unexpected h
  obtain ⟨g, us, k, ns, hread, -⟩ := programRead_of_accept hprogram
  obtain ⟨hg, hk⟩ := hread.layout hne
  have htext : source.toList = (g ++ (us ++ k)) ++ c.rest := hread.took.rest
  have hpos : c.pos = Position.initial.advance (g ++ (us ++ k)) := hread.took.pos
  have hlen : 0 < c.rest.length := List.length_pos_iff.2 hne
  have hbody : BodyAt (depth + 1) (Position.initial.advance g) us ns :=
    hread.body.imp_right And.left
  have hquoted : snippet c.rest ≠ "" := snippet_ne_empty hne hread.stops
  set i := (g ++ (us ++ k)).length with hi
  have htake : source.toList.take i = g ++ (us ++ k) := by rw [htext, hi, List.take_left]
  have hdrop : source.toList.drop i = c.rest := by rw [htext, hi, List.drop_left]
  have hcursor : c = .within source.toList i := by
    rw [Cursor.within, hdrop, htake, ← hpos]
  have hinside : i < source.toList.length := by
    rw [htext, List.length_append]
    omega
  refine ⟨i, ?_, ?_, hinside, fun x hx => ?_, ?_, hquoted, ?_, ?_⟩
  · have hnext : source.toList.take (i + 1) = (g ++ (us ++ k)) ++ c.rest.take 1 := by
      rw [List.take_add, htake, hdrop]
    rw [← Nat.cast_succ, Position.ofIndex_eq_advance hinside.le,
      Position.ofIndex_eq_advance hinside, htake, hnext,
      Position.advance_append _ _ (c.rest.take 1), hpos]
  · simp [ParseFault.diagnostic, Diagnostic.parser, hquoted]
  · have hhead : c.rest.head? = some x := by rw [← hdrop, List.head?_drop, hx]
    simpa [hhead] using hread.stops.1
  · have hcomment : comment (.within source.toList i) = .reject :=
      (Rejects.lexeme hread.stops.2).ignore i hdrop
    exact (builds_comment.reject_iff hinside.le).2 hcomment
  · have hlength : (source.toList.take i).length = i := by rw [htake]
    have haccept :=
      program_of_body (Nat.succ_pos depth) hg hbody (solid_body hbody hk hread.solid) hk htake
    rw [hlength, ofText_eq_within] at haccept
    rw [ofText_eq_within]
    exact ((builds_program _ _).accept_iff (Nat.zero_le _)).2 ⟨_, haccept⟩
  · rcases hread.body with hmain | ⟨-, hreject⟩
    · obtain ⟨_, haccept, rfl⟩ := takes_main (Nat.succ_pos depth) hmain ⟨g, htake, rfl⟩ g.length
        (by rw [htake, List.drop_left])
      have hstart : g.length ≤ (source.toList.take i).length := by simp [htake]
      obtain ⟨n, hn⟩ :=
        ((builds_mainFunction (builds_statement _)).accept_iff hstart).2 ⟨_, haccept⟩
      exact Or.inl ⟨g, us, k, n, htake, hg, hk, hn⟩
    · have hstatement : statement (depth + 1) (.within source.toList i) = .reject :=
        hcursor ▸ hreject hne
      exact Or.inr (((builds_statement _).reject_iff hinside.le).2 hstatement)

def dangling : String := "int main = 1; /* b */\nif (a) x = 1; /* c */ else 5;"

def danglingSpan : Span := ⟨⟨2, 23, 44⟩, ⟨2, 24, 45⟩⟩

theorem dangling_misplaced : parse 2 dangling = .error (.unexpected "else 5;" danglingSpan) ∧
    ∃ i : ℕ, danglingSpan = ⟨.ofIndex dangling.toList i, .ofIndex dangling.toList (i + 1)⟩ ∧
      (ParseFault.unexpected "else 5;" danglingSpan).diagnostic.message =
        "Syntax Error: unexpected 'else 5;'." ∧
      Misplaced 2 dangling.toList "else 5;" i := by
  have hread : (parse 2 dangling).map (fun _ => ()) =
      .error (.unexpected "else 5;" danglingSpan) := by
    decide +kernel
  cases hp : parse 2 dangling with
  | error fault =>
    rw [hp] at hread
    obtain rfl := Except.error.inj hread
    exact ⟨rfl, misplaced_of_unexpected hp⟩
  | ok t =>
    rw [hp] at hread
    cases hread

end Grammar

end Primer
