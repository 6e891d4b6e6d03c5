import Mathlib.Tactic
import Primer.Grammar.Rule

/-!
What it means that a rule has accepted.

For each way to build a rule, a lemma says which parts have accepted, and where, if the whole has.
A repetition that has accepted is a row of single matches (`Run`), and if every match takes some of
the text, it has stopped because nothing more matches.
-/

namespace Primer.Rule

variable {α β : Type} {p q : Rule α} {c c' : Cursor}

lemma bind_eq_accept {f : α → Rule β} {b : β} :
    (p >>= f) c = .accept b c' ↔ ∃ a c₁, p c = .accept a c₁ ∧ f a c₁ = .accept b c' := by
  change Rule.andThen p f c = _ ↔ _
  unfold Rule.andThen
  cases p c with
  | accept a c₁ => simp
  | reject | tooDeep => simp

lemma bind_eq_reject {f : α → Rule β} :
    (p >>= f) c = .reject ↔ p c = .reject ∨ ∃ a c₁, p c = .accept a c₁ ∧ f a c₁ = .reject := by
  change Rule.andThen p f c = _ ↔ _
  unfold Rule.andThen
  cases p c with
  | accept a c₁ => simp
  | reject | tooDeep => simp

lemma pure_eq_accept {a b : α} :
    (Pure.pure a : Rule α) c = .accept b c' ↔ a = b ∧ c = c' := by
  change Reply.accept a c = _ ↔ _
  rw [Reply.accept.injEq]

lemma orElse_eq_accept {a : α} :
    (p <|> q) c = .accept a c' ↔
      p c = .accept a c' ∨ p c = .reject ∧ q c = .accept a c' := by
  change Rule.orElse p q c = _ ↔ _
  unfold Rule.orElse
  cases p c with
  | accept a c₁ => simp
  | reject | tooDeep => simp

lemma orElse_eq_reject : (p <|> q) c = .reject ↔ p c = .reject ∧ q c = .reject := by
  change Rule.orElse p q c = _ ↔ _
  unfold Rule.orElse
  cases p c with
  | accept a c₁ | tooDeep => simp
  | reject => simp

lemma optional_eq_accept {o : Option α} :
    optional p c = .accept o c' ↔
      (∃ a, o = some a ∧ p c = .accept a c') ∨ o = none ∧ p c = .reject ∧ c = c' := by
  unfold optional
  cases p c with
  | accept a c₁ => simp [eq_comm]
  | reject => simp [eq_comm]
  | tooDeep => simp

lemma absent_eq_accept {u : Unit} : absent p c = .accept u c' ↔ p c = .reject ∧ c = c' := by
  unfold absent
  cases p c with
  | accept a c₁ | tooDeep => simp
  | reject => simp

lemma ignore_eq_accept {u : Unit} : ignore p c = .accept u c' ↔ ∃ a, p c = .accept a c' := by
  unfold ignore Reply.map
  cases p c with
  | accept a c₁ => simp
  | reject | tooDeep => simp

lemma ignore_eq_reject : ignore p c = .reject ↔ p c = .reject := by
  unfold ignore Reply.map
  cases p c with
  | accept a c₁ | tooDeep => simp
  | reject => simp

lemma located_eq_accept {a : α} {span : Span} :
    located p c = .accept (a, span) c' ↔ p c = .accept a c' ∧ span = ⟨c.pos, c'.pos⟩ := by
  unfold located
  cases p c with
  | accept b c₁ =>
    simp only [Reply.accept.injEq, Prod.mk.injEq]
    grind
  | reject | tooDeep => simp

lemma located_eq_reject : located p c = .reject ↔ p c = .reject := by
  unfold located
  cases p c with
  | accept a c₁ | tooDeep => simp
  | reject => simp

/-- What follows a rule that keeps its range goes on from the value and this range. -/
lemma located_bind_eq_accept {f : α × Span → Rule β} {b : β} :
    (located p >>= f) c = .accept b c' ↔
      ∃ a c₁, p c = .accept a c₁ ∧ f (a, ⟨c.pos, c₁.pos⟩) c₁ = .accept b c' := by
  rw [bind_eq_accept]
  constructor
  · rintro ⟨⟨a, span⟩, c₁, hlocated, hf⟩
    obtain ⟨hp, rfl⟩ := located_eq_accept.1 hlocated
    exact ⟨a, c₁, hp, hf⟩
  · rintro ⟨a, c₁, hp, hf⟩
    exact ⟨_, c₁, located_eq_accept.2 ⟨hp, rfl⟩, hf⟩

/-- A word that is accepted stands at the start of the text. -/
lemma lexeme_eq_accept {measure : List Char → Option ℕ} {cs : List Char}
    (h : lexeme measure c = .accept cs c') :
    ∃ n, measure c.rest = some n ∧ cs = c.rest.take n ∧ c.rest = cs ++ c'.rest := by
  unfold lexeme at h
  cases hm : measure c.rest with
  | none => simp [hm] at h
  | some n =>
    simp only [hm, Reply.accept.injEq] at h
    obtain ⟨rfl, rfl⟩ := h
    exact ⟨n, rfl, rfl, (List.take_append_drop n c.rest).symm⟩

lemma lexeme_eq_reject {measure : List Char → Option ℕ} :
    lexeme measure c = .reject ↔ measure c.rest = none := by
  unfold lexeme
  cases measure c.rest with
  | none | some n => simp

/-! ### Repetition -/

/-- The rule accepts once for each value, one match behind the other. -/
inductive Run (p : Rule α) : Cursor → List α → Cursor → Prop
  | nil {c : Cursor} : Run p c [] c
  | cons {c c₁ c' : Cursor} {a : α} {as : List α} (h : p c = .accept a c₁) (hs : Run p c₁ as c') :
    Run p c (a :: as) c'

lemma run_of_manyWithin {bound : List Char} {as : List α}
    (h : manyWithin p bound c = .accept as c') :
    Run p c as c' ∧ (p c' = .reject ∨ as.length = bound.length) := by
  induction bound generalizing c as with
  | nil =>
    obtain ⟨rfl, rfl⟩ : [] = as ∧ c = c' := Reply.accept.inj h
    exact ⟨.nil, Or.inr rfl⟩
  | cons x bound ih =>
    unfold manyWithin at h
    cases hp : p c with
    | tooDeep => simp [hp] at h
    | reject =>
      simp only [hp, Reply.accept.injEq] at h
      obtain ⟨rfl, rfl⟩ := h
      exact ⟨.nil, Or.inl hp⟩
    | accept a c₁ =>
      simp only [hp] at h
      cases hmany : manyWithin p bound c₁ with
      | tooDeep | reject => simp [hmany, Reply.map] at h
      | accept bs c₂ =>
        simp only [hmany, Reply.map, Reply.accept.injEq] at h
        obtain ⟨rfl, rfl⟩ := h
        obtain ⟨hrun, hend⟩ := ih hmany
        refine ⟨.cons hp hrun, hend.imp_right fun hlen => ?_⟩
        rw [List.length_cons, List.length_cons, hlen]

lemma run_of_many {as : List α} (h : many p c = .accept as c') : Run p c as c' :=
  (run_of_manyWithin h).1

/-- A repetition may stop at once, but it never rejects. -/
lemma many_ne_reject : many p c ≠ .reject := by
  have hwithin : ∀ (bound : List Char) (c : Cursor), manyWithin p bound c ≠ .reject := by
    intro bound
    induction bound with
    | nil => exact fun c h => nomatch h
    | cons x bound ih =>
      intro c
      unfold manyWithin
      cases p c with
      | accept a c₁ =>
        intro h
        change (manyWithin p bound c₁).map (a :: ·) = .reject at h
        cases hmany : manyWithin p bound c₁ with
        | reject => exact ih c₁ hmany
        | accept | tooDeep =>
          rw [hmany] at h
          cases h
      | reject | tooDeep => exact fun h => nomatch h
  exact hwithin c.rest c

/-- A rule that takes at least one character each time it accepts. -/
def Progresses (p : Rule α) : Prop :=
  ∀ c a c', p c = .accept a c' → c'.rest.length < c.rest.length

lemma Progresses.length_le (hp : Progresses p) {as : List α} (h : Run p c as c') :
    as.length + c'.rest.length ≤ c.rest.length := by
  induction h with
  | nil => simp
  | cons ha _ ih =>
    have hlt := hp _ _ _ ha
    rw [List.length_cons]
    omega

/-- Where the repetition of such a rule stops, the rule rejects or the text ends. -/
lemma Progresses.stops (hp : Progresses p) {as : List α} (h : many p c = .accept as c') :
    p c' = .reject ∨ c'.rest = [] := by
  obtain ⟨hrun, hend⟩ := run_of_manyWithin h
  refine hend.imp_right fun hlen => ?_
  have hle := hp.length_le hrun
  exact List.length_eq_zero_iff.1 (by omega)

end Primer.Rule
