import Mathlib.Tactic
import Primer.Proofs.LineStarts
import Primer.Proofs.Places

/-!
The locations of a tree that is read from a text.

A position counts what stands before it: the line ends, and the characters since the last of them.
Every node is located on a piece of the text, the pieces of its children lie in order on its own,
and the piece of a leaf spells the leaf.
-/

namespace Primer

namespace Position

variable {text : List Char} {p : Position}

/-- The position says how far into the text it is, on which line and in which column. -/
structure Counts (text : List Char) (p : Position) : Prop where
  nonneg : 0 ≤ p.offset
  le : p.offset ≤ text.length
  line : p.line = 1 + (text.take p.offset.toNat).count '\n'
  column : p.column = 1 + ((text.take p.offset.toNat).reverse.takeWhile (· ≠ '\n')).length

lemma column_advance (cs : List Char) :
    (initial.advance cs).column = 1 + (cs.reverse.takeWhile (· ≠ '\n')).length := by
  induction cs using List.reverseRecOn with
  | nil => rfl
  | append_singleton cs c ih =>
    rw [advance_append, advance_cons, advance_nil, step]
    split
    · rename_i hc
      simp [hc]
    · rename_i hc
      simp [ih, hc]
      omega

lemma counts_advance {cs : List Char} (h : cs <+: text) : Counts text (initial.advance cs) := by
  obtain ⟨r, rfl⟩ := h
  have htake : (cs ++ r).take (initial.advance cs).offset.toNat = cs := by
    simp [offset_initial_advance]
  refine ⟨?_, ?_, ?_, ?_⟩
  · simp [offset_initial_advance]
  · simp [offset_initial_advance]
  · rw [htake, line_advance]
  · rw [htake, column_advance]

end Position

namespace Reading

open Text

lemma sign_integer (minus : Bool) {ds : List Char} (h : IsDigits ds) :
    sign (minusSign minus ++ ds) = (minus, ds) := by
  cases minus with
  | true => rfl
  | false => exact sign_digits h

lemma spacedAfter_digits {ds : List Char} (h : IsDigits ds) (after : Bool) :
    spacedAfter after ds = true := by
  obtain ⟨hne, hds⟩ := h
  induction ds generalizing after with
  | nil => exact absurd rfl hne
  | cons d ds ih =>
    have hd : d ≠ '_' := Lexeme.ne_of_isDigit (hds d (by simp)) (by decide)
    rw [spacedAfter.eq_3 _ _ _ hd]
    cases ds with
    | nil => rfl
    | cons e ds => exact ih true (by simp) fun x hx => hds x (List.mem_cons_of_mem _ hx)

/-- Digits behind a minus sign that may be missing are read as a whole number, if there are not too
many of them. -/
lemma int?_digits (minus : Bool) {ds : List Char} (h : IsDigits ds) (hlen : ds.length ≤ maxDigits) :
    int? (String.ofList (minusSign minus ++ ds)) = .ok (signed minus (digitsValue ds)) := by
  have hnumeric : Numeric (minusSign minus ++ ds) := by
    refine numeric_append ?_ (numeric_digits h.2)
    cases minus with
    | true => exact numeric_cons (by decide) (by simp [Numeric])
    | false => simp [Numeric, minusSign]
  have hrun : digitRun ds = (ds, []) := by
    have hall : ∀ c ∈ ds, (isDigit c || c == '_') = true := fun c hc => by simp [h.2 c hc]
    rw [digitRun, List.span_eq_takeWhile_dropWhile, List.takeWhile_eq_self_iff.2 hall,
      List.dropWhile_eq_nil_iff.2 hall]
  have hfilter : ds.filter isDigit = ds := List.filter_eq_self.2 h.2
  unfold int?
  rw [String.toList_ofList, trimBlank_numeric hnumeric, sign_integer minus h]
  simp [hrun, hfilter, spacedAfter_digits h, hlen]

end Reading

namespace Grammar

open Lexeme Text

variable {text us vs g : List Char} {p q : Position} {n m : Tree} {ms : List Tree} {D : ℕ}

/-! ### Pieces of a text -/

/-- The text of a leaf is the name, spells the number, is the word for the truth value, or is a
quoted text that stands for the text without quotes. -/
def Spells (cs : List Char) : Tree → Prop
  | .literal (.int v) _ => Reading.int? (String.ofList cs) = .ok v
  | .literal (.float v) _ => Reading.float? (String.ofList cs) = some v
  | .literal (.text v) _ => string? cs = some cs.length ∧
    ∃ inner, cs = '"' :: (inner ++ ['"']) ∧ String.ofList (unescape inner) = v
  | .literal (.bool v) _ => String.ofList cs = toString v
  | .name x _ => String.ofList cs = x
  | _ => True

/-- The tree is located in the text: it stands on a piece of it, the pieces of its children lie on
this piece one behind the other, and a leaf is spelled by its piece. Only a program may stand on an
empty piece, and it stands on the whole text. -/
structure LocatedAt (text : List Char) (n : Tree) (span : Span) : Prop where
  location : n.location = some span
  start : span.start.Counts text
  stop : span.stop.Counts text
  ordered : span.start.offset ≤ span.stop.offset
  whole : ∀ ns loc, n = .program ns loc → span.start.offset = 0 ∧ span.stop.offset = text.length
  proper : (∀ ns loc, n ≠ .program ns loc) → span.start.offset < span.stop.offset
  inside : ∀ m ∈ n.children, ∃ s, m.location = some s ∧
    span.start.offset ≤ s.start.offset ∧ s.stop.offset ≤ span.stop.offset
  successive : n.children.IsChain fun l r => ∀ s t, l.location = some s → r.location = some t →
    s.stop.offset ≤ t.start.offset
  spelled : Spells (slice text span) n

/-- Nodes in order lie on the piece they stand on. -/
lemma InOrder.inside (h : InOrder p us ms) (hm : m ∈ ms) :
    ∃ s, m.location = some s ∧ p.offset ≤ s.start.offset ∧
      s.stop.offset ≤ (p.advance us).offset := by
  induction h with
  | nil => simp at hm
  | @cons p g us vs m' ms hlocation _ ih =>
    rcases List.mem_cons.1 hm with rfl | hm
    · refine ⟨_, hlocation, ?_, ?_⟩
      · simp [Span.over, Position.offset_advance]
      · simp [Span.over, Position.offset_advance]
        omega
    · obtain ⟨s, hs, hstart, hstop⟩ := ih hm
      refine ⟨s, hs, ?_, ?_⟩
      · simp [Position.offset_advance] at hstart
        omega
      · rwa [← Position.advance_append, List.append_assoc] at hstop

lemma InOrder.successive (h : InOrder p us ms) :
    ms.IsChain fun l r => ∀ s t, l.location = some s → r.location = some t →
      s.stop.offset ≤ t.start.offset := by
  induction h with
  | nil => exact .nil
  | @cons p g us vs m ms hlocation h ih =>
    cases h with
    | nil => exact .singleton _
    | @cons _ g' us' vs' m' ms' hlocation' h' =>
      refine .cons_cons ?_ ih
      intro s t hs ht
      obtain rfl := Option.some.inj (hlocation.symm.trans hs)
      obtain rfl := Option.some.inj (hlocation'.symm.trans ht)
      simp [Span.over, Position.offset_advance]
      omega

/-- A whole number that is not found to be too long has not too many digits. -/
lemma length_le_of_longInteger? {minus : Bool} {ds : List Char} {span : Span} {v : ℤ}
    (h : longInteger? text (.literal (.int v) (some span)) = none)
    (hslice : slice text span = minusSign minus ++ ds) (hds : IsDigits ds)
    (hspan : span.stop.offset - span.start.offset = (minusSign minus ++ ds).length) :
    ds.length ≤ Reading.maxDigits := by
  have hminus : minusCount (minusSign minus ++ ds) = (minusSign minus).length :=
    minusCount_append minus (by simpa using head_digits (r := []) hds)
  simp only [longInteger?, hspan, hslice, hminus, List.length_append, Nat.add_sub_cancel_left] at h
  split at h
  · split at h
    · cases h
    · omega
  · omega

lemma spells_of_leafForm {span : Span} (h : LeafForm us n) (hlocation : n.location = some span)
    (hslice : slice text span = us) (hspan : span.stop.offset - span.start.offset = us.length)
    (hlong : longInteger? text n = none) : Spells us n := by
  cases n with
  | literal v loc =>
    obtain rfl : loc = some span := hlocation
    cases h with
    | int minus hds =>
      exact Reading.int?_digits minus hds (length_le_of_longInteger? hlong hslice hds hspan)
    | float minus hcs => exact Reading.float?_fraction minus hcs
    | @text cs vs hcs =>
      refine ⟨?_, cs, rfl, by rw [unescape_form hcs]⟩
      simpa using string?_form hcs []
    | bool b => exact String.ofList_toList
  | name x loc =>
    obtain rfl : us = x.toList := h
    exact String.ofList_toList
  | binary | declare | assign | branch | whileLoop | forLoop | ret | block | program => trivial

lemma locatedAt_of_seated {before rest : List Char} (htext : text = before ++ (us ++ rest))
    (h : Seated D (Position.initial.advance before) us n) (hlong : longInteger? text n = none) :
    LocatedAt text n (.over (Position.initial.advance before) us) := by
  have hslice : slice text (.over (Position.initial.advance before) us) = us := by
    rw [htext, slice_over]
  have hspan : (Span.over (Position.initial.advance before) us).stop.offset -
      (Span.over (Position.initial.advance before) us).start.offset = us.length := by
    simp [Span.over, Position.offset_advance]
  have hpos := List.length_pos_iff.2 h.ne_nil
  refine ⟨h.location, ?_, ?_, by omega, fun ns loc hn => absurd hn (h.not_program ns loc),
    fun _ => by omega, fun m hm => h.children.inside hm, h.children.successive, ?_⟩
  · exact Position.counts_advance ⟨us ++ rest, htext.symm⟩
  · rw [Span.over, ← Position.advance_append]
    exact Position.counts_advance ⟨rest, by simp [htext]⟩
  · rw [hslice]
    exact spells_of_leafForm h.leaf h.location hslice hspan hlong

/-- **Locations**: every node of a tree that is read from a text is located in the text. -/
theorem located_of_parse {depth : ℕ} {source : String} {t : Tree} (h : parse depth source = .ok t) :
    ∀ n ∈ t.walk, ∃ span, LocatedAt source.toList n span := by
  obtain ⟨-, -, -, hlong, -⟩ := parse_eq_ok.1 h
  obtain ⟨ns, rfl, hparts⟩ := parts_of_parse h
  intro n hn
  have hshort := hlong n hn
  rw [Node.walk_eq, List.mem_cons, List.mem_flatMap] at hn
  rcases hn with rfl | ⟨m, hm, hn⟩
  · have hstop := Position.offset_initial_advance source.toList
    refine ⟨.over .initial source.toList, rfl, ?_, ?_, ?_, fun _ _ _ => ⟨rfl, hstop⟩,
      fun hn => absurd rfl (hn ns _), fun m hm => hparts.order.inside hm, hparts.order.successive,
      trivial⟩
    · exact Position.counts_advance (List.nil_prefix : [] <+: source.toList)
    · exact Position.counts_advance (List.prefix_refl source.toList)
    · rw [Span.over, hstop]
      exact Int.natCast_nonneg _
  · obtain ⟨before, us, rest, htext, hseated⟩ := hparts.placed m hm n hn
    exact ⟨_, locatedAt_of_seated htext hseated hshort⟩

def twoLines : String :=
  "if ((a) /*\n*/ + \u0663 < .5) s = \"\\\"\"; else return true;"

theorem twoLines_located : ∃ t, parse 5 twoLines = .ok t ∧
    t.walk.map Node.kind = ["Program", "IfStatement", "BinaryExpr", "BinaryExpr", "Identifier",
      "Integer", "Float", "Assignment", "String", "ReturnStatement", "Boolean"] ∧
    ∀ n ∈ t.walk, ∃ span, LocatedAt twoLines.toList n span := by
  have hread : (parse 5 twoLines).map (fun t => t.walk.map Node.kind) =
      .ok ["Program", "IfStatement", "BinaryExpr", "BinaryExpr", "Identifier",
        "Integer", "Float", "Assignment", "String", "ReturnStatement", "Boolean"] := by
    decide +kernel
  obtain ⟨t, hp, hkinds⟩ := exists_of_map_parse hread
  exact ⟨t, hp, hkinds, located_of_parse hp⟩

end Grammar

end Primer
