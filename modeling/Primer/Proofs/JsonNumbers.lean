import Mathlib.Tactic
import Primer.Json.Display
import Primer.Json.Reader
import Primer.Proofs.Outcomes
import Primer.Proofs.TokenText

/-!
The whole numbers in a JSON text.

The reader refuses a whole number with too many digits, wherever it stands. So all whole numbers in
a value that was read can be written again.
-/

namespace Primer.Json

/-! ### Values -/

lemma not_overlong_set {key : String} {v : Json} {ms : List (String × Json)}
    (hv : v.overlong = false) (h : overlongMembers ms = false) :
    overlongMembers (Table.set key v ms) = false := by
  induction ms with
  | nil => simp [Table.set, overlongMembers, hv]
  | cons m ms ih =>
    obtain ⟨k, w⟩ := m
    simp only [overlongMembers, Bool.or_eq_false_iff] at h
    rw [Table.set]
    split
    · simp [overlongMembers, hv, h.2]
    · simp [overlongMembers, h.1, ih h.2]

namespace Reader

lemma number_yields (negative : Bool) (cs : List Char) :
    Yields (fun found => found.1.overlong = false) (number negative cs) := by
  unfold number
  split
  · exact yields_error _
  · rename_i whole r _
    dsimp only
    split
    · split
      · exact yields_error _
      · rename_i hdigits
        refine yields_ok ?_
        have hvalue := Grammar.digitsValue_lt whole
        have hpow : 10 ^ whole.length ≤ 10 ^ Reading.maxDigits :=
          Nat.pow_le_pow_right (by decide) (Nat.le_of_not_lt hdigits)
        have habs : (signed negative (Text.digitsValue whole)).natAbs = Text.digitsValue whole := by
          unfold signed
          split <;> omega
        rw [overlong, habs, decide_eq_false_iff_not, Nat.pow_eq]
        omega
    · exact yields_ok rfl

lemma word?_not_overlong {cs r : List Char} {j : Json} (h : word? cs = some (j, r)) :
    j.overlong = false := by
  obtain ⟨⟨w, k⟩, hw, hk⟩ := List.exists_of_findSome?_eq_some h
  obtain ⟨r', -, hr'⟩ := Option.map_eq_some_iff.1 hk
  obtain ⟨rfl, -⟩ := Prod.mk.inj hr'
  simp only [words, List.mem_cons, Prod.mk.injEq, List.not_mem_nil, or_false] at hw
  rcases hw with ⟨-, rfl⟩ | ⟨-, rfl⟩ | ⟨-, rfl⟩ | ⟨-, rfl⟩ | ⟨-, rfl⟩ | ⟨-, rfl⟩ <;> rfl

/-- What is read with some fuel holds no number with too many digits. -/
structure Short (fuel : ℕ) : Prop where
  value : ∀ depth cs, Yields (fun found => found.1.overlong = false) (value fuel depth cs)
  items : ∀ depth cs, Yields (fun found => overlongItems found.1 = false) (items fuel depth cs)
  members : ∀ depth done cs, overlongMembers done = false →
    Yields (fun found => overlongMembers found.1 = false) (members fuel depth done cs)

/-- **Step**: a value. -/
lemma Short.value_succ {fuel : ℕ} (h : Short fuel) (depth : ℕ) (cs : List Char) :
    Yields (fun found => found.1.overlong = false) (Reader.value (fuel + 1) depth cs) := by
  unfold Reader.value
  cases depth with
  | zero => exact yields_error _
  | succ depth =>
    dsimp only
    split
    · exact yields_bind (yields_true _) fun _ _ => yields_ok rfl
    · split
      · exact yields_ok rfl
      · exact yields_bind (h.items _ _) fun _ hitems => yields_ok hitems
    · split
      · exact yields_ok rfl
      · exact yields_bind (h.members _ _ _ rfl) fun _ hmembers => yields_ok hmembers
    · split
      · rename_i found hword
        exact yields_ok (word?_not_overlong hword)
      · split <;> exact number_yields _ _

/-- **Step**: items. -/
lemma Short.items_succ {fuel : ℕ} (h : Short fuel) (depth : ℕ) (cs : List Char) :
    Yields (fun found => overlongItems found.1 = false) (Reader.items (fuel + 1) depth cs) := by
  unfold Reader.items
  refine yields_bind (h.value depth cs) fun found hvalue => ?_
  dsimp only
  split
  · exact yields_ok (by simp [overlongItems, hvalue])
  · refine yields_bind (h.items depth _) fun rest hitems => yields_ok ?_
    simp [overlongItems, hvalue, hitems]
  · exact yields_error _

/-- **Step**: members. -/
lemma Short.members_succ {fuel : ℕ} (h : Short fuel) (depth : ℕ) {done : List (String × Json)}
    (cs : List Char) (hdone : overlongMembers done = false) :
    Yields (fun found => overlongMembers found.1 = false)
      (Reader.members (fuel + 1) depth done cs) := by
  unfold Reader.members
  dsimp only
  split
  · refine yields_bind (yields_true _) fun key _ => ?_
    split
    · refine yields_bind (h.value depth _) fun found hvalue => ?_
      have hset : overlongMembers (Table.set key.1 found.1 done) = false :=
        not_overlong_set hvalue hdone
      split
      · exact yields_ok hset
      · exact h.members depth _ _ hset
      · exact yields_error _
    · exact yields_error _
  · exact yields_error _

/-- **Run**: with whatever fuel. -/
lemma short (fuel : ℕ) : Short fuel := by
  induction fuel with
  | zero =>
    refine ⟨fun depth cs => ?_, fun depth cs => ?_, fun depth done cs _ => ?_⟩
    · rw [Reader.value]
      exact yields_error _
    · rw [Reader.items]
      exact yields_error _
    · rw [Reader.members]
      exact yields_error _
  | succ fuel ih => exact ⟨ih.value_succ, ih.items_succ, fun depth _ => ih.members_succ depth⟩

end Reader

end Primer.Json
