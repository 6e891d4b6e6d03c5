import Mathlib.Tactic
import Primer.Check.Initialized
import Primer.Check.KnownValues
import Primer.Check.Typing

/-!
What the parts of a pass say about the whole.

A pass over a row takes its nodes one after the other, and the three checks do this in the same way.
A pass that stops does so in one of its parts. What is known of the faults of the parts is known of
the faults of the whole, and where the parts differ only in their faults, so do the wholes.
-/

namespace Primer

namespace Progress

variable {α β σ ε ε' : Type} {p : Progress σ ε} {s : σ} {e : ε}

def each (step : σ → α → Progress σ ε) (s : σ) : List α → Progress σ ε
  | [] => .finished s
  | a :: as => (step s a).andThen fun s => each step s as

lemma andThen_assoc (p : Progress σ ε) (f g : σ → Progress σ ε) :
    (p.andThen f).andThen g = p.andThen fun s => (f s).andThen g := by
  cases p <;> rfl

lemma andThen_finished (p : Progress σ ε) : p.andThen .finished = p := by
  cases p <;> rfl

lemma each_append {step : σ → α → Progress σ ε} (as bs : List α) (s : σ) :
    each step s (as ++ bs) = (each step s as).andThen fun s => each step s bs := by
  induction as generalizing s with
  | nil => rfl
  | cons a as ih => simp only [List.cons_append, each, andThen_assoc, ih]

/-- A pass over rows in a row, where each row is passed as one step. -/
lemma each_flatMap {step : σ → α → Progress σ ε} {whole : σ → β → Progress σ ε}
    {rows : β → List α} {bs : List β} (h : ∀ b ∈ bs, ∀ s, whole s b = each step s (rows b))
    (s : σ) :
    each whole s bs = each step s (bs.flatMap rows) := by
  induction bs generalizing s with
  | nil => rfl
  | cons b bs ih =>
    have hrest := ih fun b hb => h b (by simp [hb])
    simp only [List.flatMap_cons, each_append, each, h b (by simp), hrest]

lemma fault?_eq_some_iff : p.fault? = some e ↔ ∃ s, p = .stopped e s := by
  cases p <;> simp [fault?]

/-- A pass over a row stops in one of its steps, which starts where the steps before it have led. -/
lemma each_eq_stopped_iff {step : σ → α → Progress σ ε} {as : List α} {left : σ} :
    each step s as = .stopped e left ↔ ∃ k a reached, as[k]? = some a ∧
      each step s (as.take k) = .finished reached ∧ step reached a = .stopped e left := by
  induction as generalizing s with
  | nil => simp [each]
  | cons a as ih =>
    rw [each]
    constructor
    · intro h
      cases hstep : step s a with
      | stopped e' s' =>
        rw [hstep] at h
        exact ⟨0, a, s, rfl, rfl, hstep.trans h⟩
      | finished s' =>
        rw [hstep] at h
        obtain ⟨k, b, reached, hb, hbefore, hstopped⟩ := ih.1 h
        refine ⟨k + 1, b, reached, hb, ?_, hstopped⟩
        rw [List.take_succ_cons, each, hstep]
        exact hbefore
    · rintro ⟨_ | k, b, reached, hb, hbefore, hstopped⟩
      · obtain rfl := Option.some.inj hb
        obtain rfl := Progress.finished.inj hbefore
        rw [hstopped]
        rfl
      · obtain ⟨s', hstep, hrest⟩ := andThen_eq_finished.1 hbefore
        rw [hstep]
        exact ih.2 ⟨k, b, reached, hb, hrest, hstopped⟩

/-! ### What is blamed -/

/-- What a check that stopped blames is `P`. -/
def Blames (P : ε → Prop) (p : Progress σ ε) : Prop := ∀ e ∈ p.fault?, P e

section

variable {P : ε → Prop}

lemma blames_finished (s : σ) : (finished s : Progress σ ε).Blames P := nofun

lemma blames_stopped (he : P e) : (stopped e s).Blames P := by
  rintro _ ⟨⟩
  exact he

lemma Blames.andThen {next : σ → Progress σ ε} (h : p.Blames P)
    (hnext : ∀ s, (next s).Blames P) : (p.andThen next).Blames P := by
  cases p with
  | finished s => exact hnext s
  | stopped e s => exact h

lemma Blames.withState (h : p.Blames P) : (p.withState s).Blames P := by
  cases p with
  | finished s => exact blames_finished _
  | stopped e s => exact h

lemma blames_each {step : σ → α → Progress σ ε} {as : List α}
    (h : ∀ a ∈ as, ∀ s, (step s a).Blames P) : ∀ s, (each step s as).Blames P := by
  induction as with
  | nil => exact blames_finished
  | cons a as ih =>
    intro s
    exact (h a (by simp) s).andThen (ih fun b hb => h b (by simp [hb]))

end

/-! ### Other faults -/

def mapFault (f : ε → ε') : Progress σ ε → Progress σ ε'
  | .finished s => .finished s
  | .stopped e s => .stopped (f e) s

section

variable {f : ε → ε'}

lemma mapFault_finished (s : σ) : (finished s).mapFault f = finished s := rfl

lemma mapFault_andThen {next : σ → Progress σ ε} :
    (p.andThen next).mapFault f = (p.mapFault f).andThen fun s => (next s).mapFault f := by
  cases p <;> rfl

lemma mapFault_withState : (p.withState s).mapFault f = (p.mapFault f).withState s := by
  cases p <;> rfl

/-- Where the nodes of another row change only the faults, so does the row. -/
lemma each_map {g : α → β} {step : σ → α → Progress σ ε} {step' : σ → β → Progress σ ε'}
    {as : List α} (h : ∀ a ∈ as, ∀ s, step' s (g a) = (step s a).mapFault f) :
    ∀ s, each step' s (as.map g) = (each step s as).mapFault f := by
  induction as with
  | nil => exact fun _ => rfl
  | cons a as ih =>
    intro s
    have hrest := ih fun b hb => h b (by simp [hb])
    simp only [List.map_cons, each, mapFault_andThen, h a (by simp), hrest]

end

end Progress

open Progress

lemma Initialized.checkAll_eq (names : Names) (ns : List Tree) :
    checkAll names ns = each check names ns := by
  induction ns generalizing names with
  | nil => rfl
  | cons n ns ih => simp only [checkAll, each, ih]

lemma KnownValues.checkAll_eq (apart : Bool) (known : Known) (ns : List Tree) :
    checkAll apart known ns = each (check apart) known ns := by
  induction ns generalizing known with
  | nil => rfl
  | cons n ns ih => simp only [checkAll, each, ih]

lemma Typing.checkAll_eq (strict : Bool) (table : SymbolTable) (ns : List Tree) :
    checkAll strict table ns = each (check strict) table ns := by
  induction ns generalizing table with
  | nil => rfl
  | cons n ns ih => simp only [checkAll, each, ih]

end Primer
