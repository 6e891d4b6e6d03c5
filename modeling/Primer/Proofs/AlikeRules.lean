import Mathlib.Tactic
import Primer.Proofs.LineStarts

/-!
Rules that match the same.

`Matches text p q R` says that two rules match the same everywhere in a text and that their values
are related. Ways to build a rule keep this, so it goes from the words of two grammars up to their
programs.
-/

namespace Primer

namespace Rule

variable {α β γ δ : Type} {text : List Char} {p : Rule γ} {q : Rule α}
  {R : ℕ → ℕ → γ → α → Prop}

/-- Two replies to a text from `i` on: both accept up to the same offset with related values, both
reject or both give up. -/
inductive Alike (text : List Char) (i : ℕ) (R : ℕ → γ → α → Prop) (x : Reply γ) (y : Reply α) :
    Prop
  | accept {j : ℕ} {u : γ} {a : α} (hi : i ≤ j) (hj : j ≤ text.length)
    (hx : x = .accept u (.within text j)) (hy : y = .accept a (.within text j)) (h : R j u a)
  | reject (hx : x = .reject) (hy : y = .reject)
  | tooDeep (hx : x = .tooDeep) (hy : y = .tooDeep)

/-- Two rules match the same everywhere in a text. The values of a match from `i` to `j` are related
by `R i j`. -/
def Matches (text : List Char) (p : Rule γ) (q : Rule α) (R : ℕ → ℕ → γ → α → Prop) : Prop :=
  ∀ i ≤ text.length, Alike text i (R i) (p (.within text i)) (q (.within text i))

namespace Matches

lemma imp {S : ℕ → ℕ → γ → α → Prop} (h : Matches text p q R)
    (hS : ∀ i j u a, i ≤ j → j ≤ text.length → R i j u a → S i j u a) : Matches text p q S := by
  intro i hi
  cases h i hi with
  | accept hij hj hp hq hR => exact .accept hij hj hp hq (hS _ _ _ _ hij hj hR)
  | reject hp hq => exact .reject hp hq
  | tooDeep hp hq => exact .tooDeep hp hq

lemma accept_iff {i : ℕ} (h : Matches text p q R) (hi : i ≤ text.length) {c : Cursor} :
    (∃ u, p (.within text i) = .accept u c) ↔ ∃ a, q (.within text i) = .accept a c := by
  cases h i hi with
  | accept _ _ hp hq => simp [hp, hq]
  | reject hp hq => simp [hp, hq]
  | tooDeep hp hq => simp [hp, hq]

lemma reject_iff {i : ℕ} (h : Matches text p q R) (hi : i ≤ text.length) :
    p (.within text i) = .reject ↔ q (.within text i) = .reject := by
  cases h i hi with
  | accept _ _ hp hq => simp [hp, hq]
  | reject hp hq => simp [hp, hq]
  | tooDeep hp hq => simp [hp, hq]

lemma pure {u : γ} {a : α} (h : ∀ i, R i i u a) :
    Matches text (Pure.pure u) (Pure.pure a) R :=
  fun i hi => .accept le_rfl hi rfl rfl (h i)

lemma giveUp : Matches text (Rule.tooDeep : Rule γ) (Rule.tooDeep : Rule α) R :=
  fun _ _ => .tooDeep rfl rfl

lemma bind {f : γ → Rule δ} {g : α → Rule β} {S : γ → α → ℕ → ℕ → δ → β → Prop}
    (h : Matches text p q R) (hf : ∀ u a, Matches text (f u) (g a) (S u a)) :
    Matches text (p >>= f) (q >>= g) fun i j v b => ∃ u a k, R i k u a ∧ S u a k j v b := by
  intro i hi
  change Alike text i _ (Rule.andThen p f _) (Rule.andThen q g _)
  unfold Rule.andThen
  cases h i hi with
  | @accept k u a hik hk hp hq hR =>
    simp only [hp, hq]
    cases hf u a k hk with
    | accept hkj hj hp hq hS => exact .accept (hik.trans hkj) hj hp hq ⟨u, a, k, hR, hS⟩
    | reject hp hq => exact .reject hp hq
    | tooDeep hp hq => exact .tooDeep hp hq
  | reject hp hq => exact .reject (by rw [hp]) (by rw [hq])
  | tooDeep hp hq => exact .tooDeep (by rw [hp]) (by rw [hq])

/-- Only the first of the two rules goes on. -/
lemma map_left {f : γ → δ} (h : Matches text p q R) :
    Matches text (p >>= fun u => Pure.pure (f u)) q fun i j v a => ∃ u, R i j u a ∧ v = f u := by
  intro i hi
  change Alike text i _ (Rule.andThen p _ _) _
  unfold Rule.andThen
  cases h i hi with
  | accept hij hj hp hq hR => exact .accept hij hj (by rw [hp]; rfl) hq ⟨_, hR, rfl⟩
  | reject hp hq => exact .reject (by rw [hp]) hq
  | tooDeep hp hq => exact .tooDeep (by rw [hp]) hq

/-- Only the second of the two rules goes on. -/
lemma map_right {g : α → β} (h : Matches text p q R) :
    Matches text p (q >>= fun a => Pure.pure (g a)) fun i j u b => ∃ a, R i j u a ∧ b = g a := by
  intro i hi
  change Alike text i _ _ (Rule.andThen q _ _)
  unfold Rule.andThen
  cases h i hi with
  | accept hij hj hp hq hR => exact .accept hij hj hp (by rw [hq]; rfl) ⟨_, hR, rfl⟩
  | reject hp hq => exact .reject hp (by rw [hq])
  | tooDeep hp hq => exact .tooDeep hp (by rw [hq])

lemma ignore_right (h : Matches text p q R) :
    Matches text p (Rule.ignore q) fun i j u _ => ∃ a, R i j u a := by
  intro i hi
  unfold Rule.ignore
  cases h i hi with
  | accept hij hj hp hq hR => exact .accept hij hj hp (by rw [hq]; rfl) ⟨_, hR⟩
  | reject hp hq => exact .reject hp (by rw [hq]; rfl)
  | tooDeep hp hq => exact .tooDeep hp (by rw [hq]; rfl)

/-- Where the first rule keeps its range. -/
lemma located_left (h : Matches text p q R) :
    Matches text (Rule.located p) q fun i j u a =>
      R i j u.1 a ∧ u.2 = ⟨.ofIndex text i, .ofIndex text j⟩ := by
  intro i hi
  unfold Rule.located
  cases h i hi with
  | accept hij hj hp hq hR =>
    refine .accept hij hj (by rw [hp]) hq ⟨hR, ?_⟩
    rw [Position.ofIndex_eq_advance hi, Position.ofIndex_eq_advance hj]
    rfl
  | reject hp hq => exact .reject (by rw [hp]) hq
  | tooDeep hp hq => exact .tooDeep (by rw [hp]) hq

/-- Where the second rule keeps its range and goes on. -/
lemma located_right {g : α × Span → β} (h : Matches text p q R) :
    Matches text p (Rule.located q >>= fun r => Pure.pure (g r)) fun i j u b =>
      ∃ a, R i j u a ∧ b = g (a, ⟨.ofIndex text i, .ofIndex text j⟩) := by
  intro i hi
  change Alike text i _ _ (Rule.andThen (Rule.located q) _ _)
  unfold Rule.andThen Rule.located
  cases h i hi with
  | accept hij hj hp hq hR =>
    refine .accept hij hj hp (by rw [hq]; rfl) ⟨_, hR, ?_⟩
    rw [Position.ofIndex_eq_advance hi, Position.ofIndex_eq_advance hj]
    rfl
  | reject hp hq => exact .reject hp (by rw [hq])
  | tooDeep hp hq => exact .tooDeep hp (by rw [hq])

lemma orElse {p' : Rule γ} {q' : Rule α} (h : Matches text p q R) (h' : Matches text p' q' R) :
    Matches text (p <|> p') (q <|> q') R := by
  intro i hi
  change Alike text i _ (Rule.orElse p p' _) (Rule.orElse q q' _)
  unfold Rule.orElse
  cases h i hi with
  | accept hij hj hp hq hR => exact .accept hij hj (by rw [hp]) (by rw [hq]) hR
  | reject hp hq =>
    rw [hp, hq]
    exact h' i hi
  | tooDeep hp hq => exact .tooDeep (by rw [hp]) (by rw [hq])

lemma orElse_reject (h : Matches text p q R) :
    Matches text (Rule.orElse p fun _ => .reject) q R := by
  intro i hi
  unfold Rule.orElse
  cases h i hi with
  | accept hij hj hp hq hR => exact .accept hij hj (by rw [hp]) hq hR
  | reject hp hq => exact .reject (by rw [hp]) hq
  | tooDeep hp hq => exact .tooDeep (by rw [hp]) hq

lemma optional (h : Matches text p q R) :
    Matches text (Rule.optional p) (Rule.optional q) fun i j u a => Option.Rel (R i j) u a := by
  intro i hi
  unfold Rule.optional
  cases h i hi with
  | accept hij hj hp hq hR => exact .accept hij hj (by rw [hp]) (by rw [hq]) (.some hR)
  | reject hp hq => exact .accept le_rfl hi (by rw [hp]) (by rw [hq]) .none
  | tooDeep hp hq => exact .tooDeep (by rw [hp]) (by rw [hq])

lemma absent (h : Matches text p q R) :
    Matches text (Rule.absent p) (Rule.absent q) fun i j _ _ => i = j := by
  intro i hi
  unfold Rule.absent
  cases h i hi with
  | accept hij hj hp hq => exact .reject (by rw [hp]) (by rw [hq])
  | reject hp hq => exact .accept le_rfl hi (by rw [hp]) (by rw [hq]) rfl
  | tooDeep hp hq => exact .tooDeep (by rw [hp]) (by rw [hq])

lemma many (h : Matches text p q R) :
    Matches text (Rule.many p) (Rule.many q) fun _ _ us as =>
      List.Forall₂ (fun u a => ∃ i j, R i j u a) us as := by
  have hwithin (bound : List Char) : Matches text (Rule.manyWithin p bound)
      (Rule.manyWithin q bound) fun _ _ us as =>
        List.Forall₂ (fun u a => ∃ i j, R i j u a) us as := by
    induction bound with
    | nil => exact fun i hi => .accept le_rfl hi rfl rfl .nil
    | cons c bound ih =>
      intro i hi
      unfold Rule.manyWithin
      cases h i hi with
      | @accept k u a hik hk hp hq hR =>
        simp only [hp, hq]
        cases ih k hk with
        | accept hkj hj hp hq hRs =>
          exact .accept (hik.trans hkj) hj (by rw [hp]; rfl) (by rw [hq]; rfl)
            (.cons ⟨i, k, hR⟩ hRs)
        | reject hp hq => exact .reject (by rw [hp]; rfl) (by rw [hq]; rfl)
        | tooDeep hp hq => exact .tooDeep (by rw [hp]; rfl) (by rw [hq]; rfl)
      | reject hp hq => exact .accept le_rfl hi (by rw [hp]) (by rw [hq]) .nil
      | tooDeep hp hq => exact .tooDeep (by rw [hp]) (by rw [hq])
  exact fun i hi => hwithin _ i hi

/-- A word is what its measure has found, and the text from its start to its end. -/
lemma lexeme (text : List Char) (measure : List Char → Option ℕ) :
    Matches text (Rule.lexeme measure) (Rule.lexeme measure) fun i j _ a =>
      a = (text.drop i).take (j - i) ∧
        ∃ n, measure (text.drop i) = some n ∧ a = (text.drop i).take n := by
  intro i hi
  have hrest : (Cursor.within text i).rest = text.drop i := rfl
  unfold Rule.lexeme
  rw [hrest]
  cases hmeasure : measure (text.drop i) with
  | none => exact .reject rfl rfl
  | some n =>
    -- a measure may go beyond the end of the text, where nothing more is taken
    have hnext : (Cursor.within text i).skip n = .within text (min (i + n) text.length) := by
      rw [Cursor.skip_within]
      rcases Nat.le_total (i + n) text.length with hle | hle
      · rw [min_eq_left hle]
      · simp [Cursor.within, hle, List.take_of_length_le hle]
    dsimp only
    rw [hnext]
    refine .accept (by omega) (min_le_right _ _) rfl rfl ⟨?_, n, hmeasure, rfl⟩
    rw [List.take_eq_take_iff, List.length_drop]
    omega

end Matches

/-! ### Rules as computations -/

lemma andThen_pure (p : Rule α) : andThen p Pure.pure = p := by
  funext c
  unfold andThen
  cases p c <;> rfl

lemma andThen_assoc (p : Rule α) (f : α → Rule β) (g : β → Rule γ) :
    andThen (andThen p f) g = andThen p fun a => andThen (f a) g := by
  funext c
  unfold andThen
  cases p c <;> rfl

instance : LawfulMonad Rule := .mk' Rule andThen_pure (fun _ _ => rfl) andThen_assoc

end Rule

end Primer
