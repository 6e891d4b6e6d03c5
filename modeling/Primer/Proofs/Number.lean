import Mathlib.Data.Rat.Lemmas
import Mathlib.Tactic
import Primer.Number.Basic

/-!
Numbers that are equal by value.

Two numbers are the same if they stand for the same rational number or the same infinity. What is
no number is the same as nothing, so numbers that are equal as they stand are counted in.
-/

namespace Primer

/-- What a floating-point number stands for: a rational number, or an infinity with its sign. -/
def Binary64.value? : Binary64 → Option (ℚ ⊕ Bool)
  | .finite s m e => some (.inl (signed s m * 2 ^ e))
  | .infinite s => some (.inr s)
  | .nan => none

namespace Number

def value? : Number → Option (ℚ ⊕ Bool)
  | .int n => some (.inl n)
  | .float x => x.value?

lemma sameInt_iff (x : Binary64) (n : ℤ) : x.sameInt n ↔ x.value? = some (.inl n) := by
  rcases x with ⟨s, m, e⟩ | s | _
  · simp only [Binary64.sameInt, Binary64.value?, Option.some.injEq, Sum.inl.injEq]
    split <;> rename_i he
    · obtain ⟨k, rfl⟩ := Int.eq_ofNat_of_zero_le he
      rw [Int.toNat_natCast, beq_iff_eq, zpow_natCast]
      exact_mod_cast Iff.rfl
    · obtain ⟨k, hk⟩ := Int.eq_ofNat_of_zero_le (show 0 ≤ -e by omega)
      obtain rfl : e = -k := by omega
      rw [neg_neg, Int.toNat_natCast, beq_iff_eq, zpow_neg, zpow_natCast,
        mul_inv_eq_iff_eq_mul₀ (by positivity)]
      exact_mod_cast Iff.rfl
  · simp [Binary64.sameInt, Binary64.value?]
  · simp [Binary64.sameInt, Binary64.value?]

lemma sameFloat_iff (x y : Binary64) :
    x.same y ↔ ∃ v, x.value? = some v ∧ y.value? = some v := by
  rcases x with ⟨s, m, e⟩ | s | _ <;> rcases y with ⟨t, n, f⟩ | t | _ <;>
    simp only [Binary64.same, Binary64.value?, Option.some.injEq, reduceCtorEq, false_and,
      and_false, exists_false, exists_eq_left', Sum.inr.injEq, Bool.false_eq_true,
      beq_iff_eq, Sum.inl.injEq]
  · -- two finite numbers, in units of the smaller exponent
    obtain ⟨i, hi⟩ := Int.eq_ofNat_of_zero_le (show 0 ≤ e - min e f by omega)
    obtain ⟨j, hj⟩ := Int.eq_ofNat_of_zero_le (show 0 ≤ f - min e f by omega)
    have he : (2 : ℚ) ^ e = 2 ^ i * 2 ^ min e f := by
      rw [← zpow_natCast, ← zpow_add₀ (by norm_num)]
      congr 1
      omega
    have hf : (2 : ℚ) ^ f = 2 ^ j * 2 ^ min e f := by
      rw [← zpow_natCast, ← zpow_add₀ (by norm_num)]
      congr 1
      omega
    rw [hi, hj, Int.toNat_natCast, Int.toNat_natCast, he, hf, ← mul_assoc, ← mul_assoc]
    rw [mul_left_inj' (by positivity)]
    norm_cast
    exact eq_comm
  · exact eq_comm

lemma same_iff (a b : Number) : a.same b ↔ ∃ v, a.value? = some v ∧ b.value? = some v := by
  rcases a with m | x <;> rcases b with n | y
  · simp only [same, value?, beq_iff_eq, Option.some.injEq, exists_eq_left', Sum.inl.injEq,
      Int.cast_inj]
    exact eq_comm
  · simp [same, value?, sameInt_iff]
  · simp [same, value?, sameInt_iff]
  · exact sameFloat_iff x y

/-- Equal by value, or equal as they stand. -/
def Agrees (a b : Number) : Prop := a = b ∨ a.same b

instance (a b : Number) : Decidable (a.Agrees b) := inferInstanceAs (Decidable (_ ∨ _))

@[refl] lemma Agrees.refl (a : Number) : a.Agrees a := Or.inl rfl

lemma Agrees.symm {a b : Number} (h : a.Agrees b) : b.Agrees a := by
  rcases h with rfl | h
  · exact Or.inl rfl
  · obtain ⟨v, ha, hb⟩ := (same_iff a b).mp h
    exact Or.inr ((same_iff b a).mpr ⟨v, hb, ha⟩)

lemma Agrees.trans {a b c : Number} (hab : a.Agrees b) (hbc : b.Agrees c) : a.Agrees c := by
  rcases hab with rfl | hab
  · exact hbc
  · rcases hbc with rfl | hbc
    · exact Or.inr hab
    · obtain ⟨v, ha, hb⟩ := (same_iff a b).mp hab
      obtain ⟨w, hb', hc⟩ := (same_iff b c).mp hbc
      obtain rfl : v = w := Option.some.inj (hb.symm.trans hb')
      exact Or.inr ((same_iff a c).mpr ⟨v, ha, hc⟩)

end Number

end Primer
