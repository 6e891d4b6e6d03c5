import Mathlib.Tactic

/-!
What computations that may fail come to.

A property of all that a computation gives, and one of all that may stop it. Both go through a
computation part by part.
-/

namespace Primer

variable {ε δ α β : Type}

/-- All that the computation can give is `P`. -/
def Yields (P : α → Prop) (x : Except ε α) : Prop := ∀ a, x = .ok a → P a

/-- Whatever stops the computation is `P`. -/
def Fails (P : ε → Prop) (x : Except ε α) : Prop := ∀ e, x = .error e → P e

section

variable {P : α → Prop} {Q : β → Prop}

lemma yields_ok {a : α} (ha : P a) : Yields P (.ok a : Except ε α) := by
  rintro _ ⟨⟩
  exact ha

lemma yields_error (e : ε) : Yields P (.error e : Except ε α) := nofun

lemma yields_true (x : Except ε α) : Yields (fun _ => True) x := fun _ _ => trivial

lemma yields_bind {x : Except ε α} {f : α → Except ε β} (hx : Yields P x)
    (hf : ∀ a, P a → Yields Q (f a)) : Yields Q (x >>= f) := by
  cases x with
  | error e => exact yields_error e
  | ok a => exact hf a (hx a rfl)

lemma yields_mapError {x : Except δ α} {f : δ → ε} (h : Yields P x) : Yields P (x.mapError f) := by
  cases x with
  | error d => exact yields_error _
  | ok a => exact yields_ok (h a rfl)

end

section

variable {P : ε → Prop}

lemma fails_ok (a : α) : Fails P (.ok a) := nofun

lemma fails_error {e : ε} (he : P e) : Fails P (.error e : Except ε α) := by
  rintro _ ⟨⟩
  exact he

/-- A computation in two parts, of which the second may use what the first has found out. -/
lemma fails_bind {x : Except ε α} {f : α → Except ε β} (hx : Fails P x)
    (hf : ∀ a, x = .ok a → Fails P (f a)) : Fails P (x >>= f) := by
  cases x with
  | error e => exact fails_error (hx e rfl)
  | ok a => exact hf a rfl

lemma fails_mapError {x : Except δ α} {f : δ → ε} (h : Fails (fun d => P (f d)) x) :
    Fails P (x.mapError f) := by
  cases x with
  | error d => exact fails_error (h d rfl)
  | ok a => exact fails_ok a

end

end Primer
