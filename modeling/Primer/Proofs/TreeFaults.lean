import Mathlib.Tactic
import Primer.Proofs.Codec

/-!
What becomes of a value that is read as a tree.

A value is read as a tree of an accepted height, or a diagnostic says that it is malformed or nested
too deep. There is a third end: a number outside the range it is read into stops the reading and
nothing is reported, and neither is a tag that holds a number too long to be written. The reading
says which number it was, and this number is found in the value.
-/

namespace Primer

/-! ### Numbers out of range -/

namespace Json

/-- The first value holds the second one, at any depth. -/
inductive Holds : Json → Json → Prop
  | self {j : Json} : Holds j j
  | member {ms : List (String × Json)} {key : String} {j i : Json}
    (hkey : member? key ms = some j) (h : Holds j i) : Holds (.obj ms) i
  | item {js : List Json} {j i : Json} (hj : j ∈ js) (h : Holds j i) : Holds (.arr js) i

/-- A number in a value lies outside the range it is read into. -/
inductive Overruns (j : Json) : NumberFault → Prop
  /-- The value of a whole number is an infinity. -/
  | integer {ms : List (String × Json)} {negative : Bool} (hin : j.Holds (.obj ms))
    (htag : member? "type" ms = some (.str "Integer"))
    (hvalue : member? "value" ms = some (.float (.infinite negative))) :
    Overruns j .infinityToInteger
  /-- The value of a floating-point number is a whole number beyond all of them. -/
  | float {ms : List (String × Json)} {n : ℤ} (hin : j.Holds (.obj ms))
    (htag : member? "type" ms = some (.str "Float"))
    (hvalue : member? "value" ms = some (.int n)) (hn : Binary64.ofInt? n = none) :
    Overruns j .integerTooLarge
  /-- A number of a place is an infinity. -/
  | place {ms span position : List (String × Json)} {edge key : String} {negative : Bool}
    (hin : j.Holds (.obj ms)) (hspan : member? "location" ms = some (.obj span))
    (hedge : edge ∈ ["start", "end"]) (hposition : member? edge span = some (.obj position))
    (hkey : key ∈ ["line", "column", "offset"])
    (hvalue : member? key position = some (.float (.infinite negative))) :
    Overruns j .infinityToInteger

/-- The tag of a value holds a number that is too long to be written. -/
def OverlongTag (j : Json) : Prop :=
  ∃ ms tag, j = .obj ms ∧ member? "type" ms = some tag ∧ tag.overlong

variable {j i : Json} {fault : NumberFault}

/-- A member that is left out counts as `null`, so what is not `null` is a member. -/
lemma member_of_getD {ms : List (String × Json)} {key : String}
    (h : (member? key ms).getD .null = j) (hj : j ≠ .null) : member? key ms = some j := by
  cases hmember : member? key ms with
  | none => exact absurd (by simpa [hmember] using h.symm) hj
  | some i => simpa [hmember] using h

/-- What overruns inside a value overruns inside the values that hold it. -/
lemma Overruns.outward (h : i.Overruns fault) (hj : ∀ k, i.Holds k → j.Holds k) :
    j.Overruns fault := by
  cases h with
  | integer hin htag hvalue => exact .integer (hj _ hin) htag hvalue
  | float hin htag hvalue hn => exact .float (hj _ hin) htag hvalue hn
  | place hin hspan hedge hposition hkey hvalue =>
    exact .place (hj _ hin) hspan hedge hposition hkey hvalue

/-- Only an infinity is outside the range of the whole numbers. -/
lemma fails_toInt (j : Json) :
    Fails (fun f => f.isRange →
      f = .infinityToInteger ∧ ∃ negative, j = .float (.infinite negative)) j.toInt := by
  cases j with
  | int n | bool b => exact fails_ok _
  | float x =>
    cases x with
    | finite => exact fails_ok _
    | infinite negative => exact fails_error fun _ => ⟨rfl, negative, rfl⟩
    | nan => exact fails_error nofun
  | str s =>
    rw [toInt]
    split
    · exact fails_ok _
    · exact fails_error nofun
    · exact fails_error nofun
  | null | arr | obj => exact fails_error nofun

/-- Only a whole number may be outside the range of the floating-point numbers. -/
lemma fails_toFloat (j : Json) :
    Fails (fun f => f.isRange →
      f = .integerTooLarge ∧ ∃ n, j = .int n ∧ Binary64.ofInt? n = none) j.toFloat := by
  cases j with
  | float x | bool b => exact fails_ok _
  | int n =>
    rw [toFloat]
    split
    · exact fails_ok _
    · exact fails_error fun _ => ⟨rfl, n, rfl, ‹_›⟩
  | str s =>
    rw [toFloat]
    split
    · exact fails_ok _
    · exact fails_error nofun
  | null | arr | obj => exact fails_error nofun

lemma fails_toText (j : Json) : Fails (fun f => f.isRange = false) j.toText := by
  unfold toText
  split
  · exact fails_error rfl
  · exact fails_ok _

end Json

open Json

/-! ### Places -/

/-- A fault of a position that blames a range blames an infinity among its numbers. -/
def Position.Traced (j : Json) (fault : PlaceFault) : Prop :=
  ∀ f, fault = .number f → f.isRange → f = .infinityToInteger ∧
    ∃ ms key negative, j = .obj ms ∧ key ∈ ["line", "column", "offset"] ∧
      member? key ms = some (.float (.infinite negative))

lemma Position.fails_coordinate {ms : List (String × Json)} {key : String}
    (hkey : key ∈ ["line", "column", "offset"]) :
    Fails (Traced (.obj ms)) (coordinate ms key) := by
  unfold coordinate
  split
  · exact fails_ok _
  · rename_i j hj
    refine fails_mapError fun g hg f hf hrange => ?_
    obtain rfl := PlaceFault.number.inj hf
    obtain ⟨rfl, negative, rfl⟩ := fails_toInt j g hg hrange
    exact ⟨rfl, ms, key, negative, rfl, hkey, hj⟩

lemma Position.fails_ofJson (j : Json) : Fails (Traced j) (ofJson j) := by
  unfold ofJson
  split
  · cases j with
    | obj ms =>
      refine fails_bind (fails_coordinate (by simp)) fun _ _ => ?_
      refine fails_bind (fails_coordinate (by simp)) fun _ _ => ?_
      exact fails_bind (fails_coordinate (by simp)) fun _ _ => fails_ok _
    | _ => exact fails_error nofun
  · exact fails_ok _

/-- A fault of a place that blames a range blames an infinity in one of its two positions. -/
def Span.Traced (j : Json) (fault : PlaceFault) : Prop :=
  ∀ f, fault = .number f → f.isRange → f = .infinityToInteger ∧
    ∃ span edge position key negative, j = .obj span ∧ edge ∈ ["start", "end"] ∧
      member? edge span = some (.obj position) ∧ key ∈ ["line", "column", "offset"] ∧
        member? key position = some (.float (.infinite negative))

lemma Span.fails_position {span : List (String × Json)} {edge : String}
    (hedge : edge ∈ ["start", "end"]) :
    Fails (Traced (.obj span)) (Position.ofJson ((member? edge span).getD .null)) := by
  intro e h f he hrange
  obtain ⟨hf, position, key, negative, hobj, hkey, hvalue⟩ :=
    Position.fails_ofJson _ e h f he hrange
  have hposition := member_of_getD hobj nofun
  exact ⟨hf, span, edge, position, key, negative, rfl, hedge, hposition, hkey, hvalue⟩

lemma Span.fails_ofJson (j : Json) : Fails (Traced j) (ofJson j) := by
  unfold ofJson
  split
  · cases j with
    | obj span =>
      refine fails_bind (fails_position (by simp)) fun _ _ => ?_
      exact fails_bind (fails_position (by simp)) fun _ _ => fails_ok _
    | _ => exact fails_error nofun
  · exact fails_ok _

/-! ### Trees -/

namespace Node

/-- A fault of a tree that blames a range blames a number of the value. -/
def Traced (j : Json) (fault : TreeFault) : Prop := ∀ f, fault = .outOfRange f → j.Overruns f

section

variable {read : Json → Except TreeFault JsonTree} {tag key : String} {loc : Option Span}
  {ms : List (String × Json)} {i j : Json}

lemma Traced.member {fault : TreeFault} (h : Traced i fault) (hkey : member? key ms = some i) :
    Traced (.obj ms) fault :=
  fun f hf => (h f hf).outward fun _ hk => .member hkey hk

lemma Traced.item {fault : TreeFault} {js : List Json} (h : Traced i fault) (hi : i ∈ js) :
    Traced (.arr js) fault :=
  fun f hf => (h f hf).outward fun _ hk => .item hi hk

lemma fails_field : Fails (Traced j) (field tag loc ms key) := by
  unfold field
  split
  · exact fails_ok _
  · exact fails_error nofun

lemma member_of_field (h : field tag loc ms key = .ok i) : member? key ms = some i := by
  unfold field at h
  split at h
  · rename_i hi
    rw [hi, Except.ok.inj h]
  · cases h

lemma member_of_optionalField (h : optionalField ms key = some i) :
    member? key ms = some i := by
  unfold optionalField at h
  split at h
  · cases h
  · exact h

/-- A literal fails outside a range only if its reading does. -/
lemma fails_literalField {α : Type} {x : Except NumberFault α}
    (h : Fails (fun f => f.isRange → j.Overruns f) x) :
    Fails (Traced j) (literalField tag loc x) := by
  cases x with
  | ok v => exact fails_ok _
  | error fault =>
    rw [literalField]
    split
    · rename_i hrange
      refine fails_error fun f hf => ?_
      obtain rfl := TreeFault.outOfRange.inj hf
      exact h _ rfl hrange
    · exact fails_error nofun

section Parts

variable (hread : ∀ i, Fails (Traced i) (read i))
include hread

/-- A part that must be there and is read as a tree, and what is made of it. -/
lemma fails_part {α : Type} {f : JsonTree → Except TreeFault α}
    (hf : ∀ n, Fails (Traced (.obj ms)) (f n)) :
    Fails (Traced (.obj ms)) (field tag loc ms key >>= fun i => read i >>= f) := by
  refine fails_bind fails_field fun i hi => fails_bind ?_ fun n _ => hf n
  exact fun e he => (hread i e he).member (member_of_field hi)

lemma fails_readOptional :
    Fails (Traced (.obj ms)) (readOptional read (optionalField ms key)) := by
  cases hi : optionalField ms key with
  | none => exact fails_ok _
  | some i =>
    refine fails_bind ?_ fun _ _ => fails_ok _
    exact fun e he => (hread i e he).member (member_of_optionalField hi)

lemma fails_readAll (js : List Json) : Fails (Traced (.arr js)) (readAll read js) := by
  -- Over a tail of the array, so that the array itself stays in place.
  suffices h : ∀ ks, (∀ k ∈ ks, k ∈ js) → Fails (Traced (.arr js)) (readAll read ks) from
    h js fun _ hk => hk
  intro ks hks
  induction ks with
  | nil => exact fails_ok _
  | cons k ks ih =>
    refine fails_bind (fun e he => (hread k e he).item (hks k (by simp))) fun _ _ => ?_
    exact fails_bind (ih fun i hi => hks i (by simp [hi])) fun _ _ => fails_ok _

lemma fails_readBody : Fails (Traced (.obj ms)) (readBody read (optionalField ms key)) := by
  cases hi : optionalField ms key with
  | none => exact fails_ok _
  | some i =>
    have hmember := member_of_optionalField hi
    unfold readBody
    split
    · exact fails_ok _
    · rename_i js hjs
      obtain rfl := Option.some.inj hjs
      exact fun e he => (fails_readAll hread js e he).member hmember
    · rename_i k _ hk
      obtain rfl := Option.some.inj hk
      refine fails_bind ?_ fun _ _ => fails_ok _
      exact fun e he => (hread _ e he).member hmember

/-- **Step**: if the faults of the parts are traced, so are those of the node. -/
lemma fails_readTagged (htag : member? "type" ms = some (.str tag)) :
    Fails (Traced (.obj ms)) (readTagged read tag ms loc) := by
  unfold readTagged
  split
  -- A program and a block.
  · exact fails_bind (fails_readBody hread) fun _ _ => fails_ok _
  · exact fails_bind (fails_readBody hread) fun _ _ => fails_ok _
  -- A declaration and an assignment.
  · refine fails_bind fails_field fun _ _ => fails_bind fails_field fun _ _ => ?_
    exact fails_bind (fails_readOptional hread) fun _ _ => fails_ok _
  · exact fails_bind fails_field fun _ _ => fails_part hread fun _ => fails_ok _
  -- An operation.
  · refine fails_bind fails_field fun _ _ => ?_
    exact fails_part hread fun _ => fails_part hread fun _ => fails_ok _
  -- A branch and the loops.
  · refine fails_part hread fun _ => fails_part hread fun _ => ?_
    exact fails_bind (fails_readOptional hread) fun _ _ => fails_ok _
  · exact fails_part hread fun _ => fails_part hread fun _ => fails_ok _
  · exact fails_part hread fun _ => fails_ok _
  -- A return.
  · exact fails_bind (fails_readOptional hread) fun _ _ => fails_ok _
  -- The four kinds of literals. The value of the first two may lie outside a range.
  · refine fails_bind fails_field fun i hi => fails_bind ?_ fun _ _ => fails_ok _
    refine fails_literalField fun f hf hrange => ?_
    obtain ⟨rfl, negative, rfl⟩ := fails_toInt i f hf hrange
    exact .integer .self htag (member_of_field hi)
  · refine fails_bind fails_field fun i hi => fails_bind ?_ fun _ _ => fails_ok _
    refine fails_literalField fun f hf hrange => ?_
    obtain ⟨rfl, n, rfl, hn⟩ := fails_toFloat i f hf hrange
    exact .float .self htag (member_of_field hi) hn
  · refine fails_bind fails_field fun i hi => fails_bind ?_ fun _ _ => fails_ok _
    refine fails_literalField fun f hf hrange => ?_
    simp [fails_toText i f hf] at hrange
  · exact fails_bind fails_field fun _ _ => fails_ok _
  -- A name, and a tag that there is not.
  · exact fails_bind fails_field fun _ _ => fails_ok _
  · exact fails_error nofun

end Parts

end

/-- What is known of a fault for which there is no diagnostic. -/
structure Accounted (j : Json) (fault : TreeFault) : Prop where
  traced : Traced j fault
  rooted : fault = .unwritable → j.OverlongTag

variable {levels : ℕ} {j : Json} {fault : TreeFault}

/-- Other faults than those of numbers and of long tags need no account. -/
lemma accounted_of_ne (hrange : ∀ f, fault ≠ .outOfRange f)
    (hwritten : fault ≠ .unwritable) : Accounted j fault :=
  ⟨fun f hf => absurd hf (hrange f), fun hf => absurd hf hwritten⟩

/-- A tag that is left out can be written, so a tag that cannot be written is there. -/
lemma accounted_naming {ms : List (String × Json)} (hrange : ∀ f, fault ≠ .outOfRange f)
    (hwritten : fault ≠ .unwritable) :
    Accounted (.obj ms) (.naming ((member? "type" ms).getD .null) fault) := by
  unfold TreeFault.naming
  split
  · rename_i hlong
    refine ⟨nofun, fun _ => ⟨ms, _, rfl, member_of_getD rfl fun hnull => ?_, hlong⟩⟩
    simp [hnull, overlong] at hlong
  · exact accounted_of_ne hrange hwritten

/-- A node accounts for what its parts cannot write. -/
lemma accounted_within {tag : String} {loc : Option Span} (h : Traced j fault) :
    Accounted j (fault.within tag loc) := by
  cases fault with
  | outOfRange f => exact ⟨h, nofun⟩
  | _ => exact ⟨nofun, nofun⟩

lemma accounted_place {ms : List (String × Json)} {f : NumberFault}
    (h : Span.ofJson ((member? "location" ms).getD .null) = .error (.number f))
    (hrange : f.isRange) : Accounted (.obj ms) (.outOfRange f) := by
  refine ⟨fun g hg => ?_, nofun⟩
  obtain rfl := TreeFault.outOfRange.inj hg
  obtain ⟨rfl, span, edge, position, key, negative, hobj, hedge, hposition, hkey, hvalue⟩ :=
    Span.fails_ofJson _ _ h f rfl hrange
  exact .place .self (member_of_getD hobj nofun) hedge hposition hkey hvalue

/-- **Run**: however deep the reading goes, what stops it is accounted for. -/
lemma fails_readWithin (levels : ℕ) (j : Json) : Fails (Accounted j) (readWithin levels j) := by
  induction levels generalizing j with
  | zero => exact fails_error (accounted_of_ne (by simp) (by simp))
  | succ levels ih =>
    cases j with
    | obj ms =>
      rw [readWithin]
      split
      · rename_i f hplace
        split
        · exact fails_error (accounted_place hplace ‹_›)
        · exact fails_error (accounted_naming (by simp) (by simp))
      · exact fails_error (accounted_naming (by simp) (by simp))
      · split
        · rename_i t htag
          have htype := member_of_getD htag (by simp)
          refine fails_mapError fun e he => accounted_within ?_
          exact fails_readTagged (fun i e he => (ih i e he).traced) htype e he
        · exact fails_error (accounted_naming (by simp) (by simp))
    | _ => exact fails_error (accounted_of_ne (by simp) (by simp))

lemma fails_ofJson (levels : ℕ) (j : Json) : Fails (Accounted j) (ofJson levels j) := by
  refine fails_bind (fails_readWithin levels j) fun n _ => ?_
  split
  · exact fails_error ⟨nofun, nofun⟩
  · exact fails_ok _

/-- A value is a tree of an accepted height, or a diagnostic says that it is malformed or nested too
deep, where the reading goes down some number of levels. -/
def Settled (levels : ℕ) (j : Json) : Prop :=
  (∃ n, ofJson levels j = .ok n ∧ n.height ≤ maxLevels) ∨
    ∃ fault d, ofJson levels j = .error fault ∧ fault.diagnostic? = some d ∧ d.category = .parser ∧
      (d.code = .malformedTree ∨ d.code = .nestingTooDeep)

lemma not_settled_of_silent (h : ofJson levels j = .error fault)
    (hsilent : fault.diagnostic? = none) :
    ¬ Settled levels j := by
  rintro (⟨n, hn, -⟩ | ⟨fault', d, hfault, hd, -⟩)
  · simp [h] at hn
  · obtain rfl := Except.error.inj (h.symm.trans hfault)
    simp [hsilent] at hd

/-- A fault has a diagnostic of its own unless it blames a range or a tag that is not written. -/
lemma settled_of_reported (h : ofJson levels j = .error fault) (hrange : ∀ f, fault ≠ .outOfRange f)
    (hwritten : fault ≠ .unwritable) : Settled levels j := by
  refine .inr ⟨fault, ?_⟩
  cases fault with
  | outOfRange f => exact absurd rfl (hrange f)
  | unwritable => exact absurd rfl hwritten
  | tooDeep | nesting => exact ⟨_, h, rfl, rfl, .inr rfl⟩
  | _ => exact ⟨_, h, rfl, rfl, .inl rfl⟩

/-- **What escapes the diagnostics**: a value that is neither read as a tree nor reported as
malformed or nested too deep, down whatever number of levels, is one of two kinds. Its reading came
to a number outside the range it is read into, and the value holds such a number; or its tag could
not be written, and the tag holds a number that is too long. -/
theorem not_settled_iff (levels : ℕ) (j : Json) :
    ¬ Settled levels j ↔
      (∃ f, ofJson levels j = .error (.outOfRange f) ∧ j.Overruns f) ∨
        (ofJson levels j = .error .unwritable ∧ j.OverlongTag) := by
  constructor
  · intro hunsettled
    cases hread : ofJson levels j with
    | ok n => exact absurd (.inl ⟨n, hread, (height_le_of_ofJson hread).1⟩) hunsettled
    | error fault =>
      have haccounted := fails_ofJson levels j fault hread
      by_contra hnone
      rw [not_or] at hnone
      refine hunsettled (settled_of_reported hread (fun f hf => hnone.1 ?_) fun hf => hnone.2 ?_)
      · exact ⟨f, by rw [hf], haccounted.traced f hf⟩
      · exact ⟨by rw [hf], haccounted.rooted hf⟩
  · rintro (⟨f, hf, -⟩ | ⟨hf, -⟩)
    · exact not_settled_of_silent hf rfl
    · exact not_settled_of_silent hf rfl

def wholeFloat (n : ℤ) : Json := .obj [("type", .str "Float"), ("value", .int n)]

lemma ofJson_wholeFloat {n : ℤ} (hn : Binary64.ofInt? n = none) :
    ofJson (levels + 1) (wholeFloat n) = .error (.outOfRange .integerTooLarge) := by
  have hvalue : (Json.int n).toFloat = .error .integerTooLarge := by rw [toFloat, hn]
  have htagged : readTagged (readWithin levels) "Float"
      [("type", .str "Float"), ("value", .int n)] none =
        .error (.outOfRange .integerTooLarge) := by
    change (do return literal (.float (← literalField "Float" none (Json.int n).toFloat)) none) = _
    rw [hvalue]
    rfl
  change ((readTagged (readWithin levels) "Float" _ none).mapError _ >>= _) = _
  rw [htagged]
  rfl

/-- A whole number beyond all floating-point numbers is neither taken nor reported as malformed,
however far the reading may go. -/
theorem wholeFloat_not_settled : ¬ ∃ levels, Settled (levels + 1) (wholeFloat (10 ^ 309)) := by
  have hhuge : Binary64.ofInt? (10 ^ 309) = none := by decide +kernel
  rintro ⟨levels, hsettled⟩
  exact not_settled_of_silent (ofJson_wholeFloat hhuge) rfl hsettled

end Node

end Primer
