import Mathlib.Tactic
import Primer.Proofs.Locations
import Primer.Proofs.Relocation

/-!
The text of a statement, read on its own.

A statement is read from its own text alone. Cut out of the program it stands in, at any depth, this
text is a program of one statement, and the statement is the one that was read before, with its
places counted from where it starts.
-/

namespace Primer

/-- A position counted from `start`, which is where the piece begins. The offset gets smaller by
that of `start`. The line and the column are those that the new offset has in the piece. -/
def Position.rebase (piece : List Char) (start p : Position) : Position :=
  .ofIndex piece (p.offset - start.offset)

namespace Grammar

open Rule Cursor

variable {f : Position → Position} {p q : Position} {text us before rest : List Char} {d : ℕ}
  {m n : Tree}

lemma carries_rebase (p : Position) (us : List Char) : Carries (.rebase us p) p .initial us := by
  rintro ws ⟨r, rfl⟩
  have hoffset : (p.advance ws).offset - p.offset = ws.length := by
    simp [Position.offset_advance]
  rw [Position.rebase, hoffset, Position.ofIndex_eq_advance (by simp), List.take_left]

/-- A piece of text that is moved keeps its digits. -/
lemma longInteger?_relocate {piece : List Char} (hlocation : m.location = some (.over p us))
    (hc : Carries f p q us) (hslice : slice piece (.over q us) = slice text (.over p us)) :
    longInteger? piece (m.relocate f) = longInteger? text m := by
  have hspan : (Span.over q us).stop.offset - (Span.over q us).start.offset =
      (Span.over p us).stop.offset - (Span.over p us).start.offset := by
    simp [Span.over, Position.offset_advance]
  cases m with
  | literal v loc =>
    obtain rfl : loc = some (.over p us) := hlocation
    cases v with
    | int v => simp only [Node.relocate, Option.map_some, hc.over, longInteger?, hslice, hspan]
    | _ => rfl
  | declare t x v => cases v <;> rfl
  | branch c b e => cases e <;> rfl
  | ret v => cases v <;> rfl
  | _ => rfl

/-- The whole numbers of a statement are not too long if they are not in the text around it. -/
lemma longInteger?_alone (h : StmtAt d (Position.initial.advance before) us n)
    (htext : text = before ++ (us ++ rest)) (hlong : ∀ m ∈ n.walk, longInteger? text m = none) :
    ∀ m ∈ (n.relocate (.rebase us (Position.initial.advance before))).walk,
      longInteger? us m = none := by
  rw [Node.walk_relocate]
  intro m' hm'
  obtain ⟨m, hm, rfl⟩ := List.mem_map.1 hm'
  obtain ⟨a, w, b, rfl, hseated⟩ := placed_stmt le_rfl h m hm
  have hc := (carries_rebase (Position.initial.advance before) (a ++ (w ++ b))).piece a b rfl
  rw [← hlong m hm]
  refine longInteger?_relocate hseated.location hc ?_
  -- both slices are the text of the node
  rw [slice_over, htext, ← Position.advance_append]
  simpa using (slice_over (before ++ a) w (b ++ rest)).symm

/-- The text of a statement is a program of its own. -/
lemma program_of_stmt {depth : ℕ} (hd : d ≤ depth) (h : StmtAt d .initial us n) :
    program depth (.ofText us) =
      .accept (.program [n] (some (.over .initial us))) (.within us us.length) := by
  have hpos : 0 < d := by
    cases d with
    | zero => exact h.elim
    | succ d => omega
  have hrow : RowAt (StmtAt d) .initial us [n] := by
    simpa using RowAt.cons (p := .initial) .nil h .nil
  have hread := program_of_body hpos .nil (.inr hrow) (by simpa using (firm_stmt h).solid) .nil
    (by simp : us = [] ++ (us ++ []))
  rcases below_program hd (.ofText us) with hdeep | hsame
  · rw [hread] at hdeep
    cases hdeep
  · rw [← hsame, hread]

/-- **Statements on their own**: the text of a statement, cut out of a text that is read as a
program, is read as the program of this one statement, with its places counted from its start. -/
theorem parse_slice_of_statement {depth : ℕ} {source : String} {t n : Tree}
    (h : parse depth source = .ok t) (hn : n ∈ t.walk) (hkind : n.isStatementOrBlock) :
    ∃ span piece, n.location = some span ∧ slice source.toList span = piece ∧
      parse depth (String.ofList piece) = .ok (.program [n.relocate (.rebase piece span.start)]
        (some (.over .initial piece))) := by
  obtain ⟨-, -, -, hlong, hhigh⟩ := parse_eq_ok.1 h
  obtain ⟨ns, rfl, hparts⟩ := parts_of_parse h
  have hlong' : ∀ m ∈ n.walk, longInteger? source.toList m = none :=
    fun m hm => hlong m (Node.mem_walk_trans hm hn)
  rw [Node.walk_eq, List.mem_cons, List.mem_flatMap] at hn
  rcases hn with rfl | ⟨c, hc, hn⟩
  · cases hkind
  obtain ⟨before, us, rest, htext, hseated⟩ := hparts.placed c hc n hn
  obtain ⟨d, hd, hshape⟩ := hseated.shape hkind
  have hslice : slice source.toList (.over (Position.initial.advance before) us) = us := by
    rw [htext, slice_over]
  have hmoved := relocates_stmt d hshape (carries_rebase _ us)
  refine ⟨_, us, hseated.location, hslice, parse_eq_ok.2 ⟨.within us us.length, ?_, ?_, ?_, ?_⟩⟩
  · rw [String.toList_ofList]
    exact program_of_stmt hd hmoved
  · simp [Cursor.within]
  · rw [String.toList_ofList, Node.walk_eq]
    simp only [Node.children, List.flatMap_singleton, List.forall_mem_cons]
    exact ⟨rfl, longInteger?_alone hshape htext hlong'⟩
  · have hheight := Node.height_le_of_mem_walk hn
    have hchild := Node.height_lt_of_mem_children hc
    rw [Node.height, Node.heightAll, Node.heightAll, Node.height_relocate]
    omega

def nestedElse : String :=
  "int main() \x7b\n  while (a) if (b) x = 1; // one\n  else \x7b y = -2; \x7d\n\x7d"

theorem parse_slice_nestedElse : ∃ t n, parse 5 nestedElse = .ok t ∧ n ∈ t.walk ∧
    n.kind = "IfStatement" ∧ n.isStatementOrBlock ∧
    ∃ span piece, n.location = some span ∧ slice nestedElse.toList span = piece ∧
      parse 5 (String.ofList piece) = .ok (.program [n.relocate (.rebase piece span.start)]
        (some (.over .initial piece))) := by
  have hread : (parse 5 nestedElse).map (fun t =>
      t.walk[3]?.map fun n => (n.kind, n.isStatementOrBlock)) =
      .ok (some ("IfStatement", true)) := by
    decide +kernel
  obtain ⟨t, hp, hsome⟩ := exists_of_map_parse hread
  obtain ⟨n, hn, hkind⟩ := Option.map_eq_some_iff.1 hsome
  obtain ⟨hname, hstatement⟩ := Prod.mk.inj hkind
  have hmem := List.mem_of_getElem? hn
  exact ⟨t, n, hp, hmem, hname, hstatement, parse_slice_of_statement hp hmem hstatement⟩

end Grammar

end Primer
