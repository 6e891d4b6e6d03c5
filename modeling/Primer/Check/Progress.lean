/-!
Passes that stop at the first fault.

A pass carries a state through a tree. It ends with the state it has reached, and with a fault if
it had to stop there.
-/

namespace Primer

inductive Progress (σ ε : Type) where
  | finished (state : σ)
  | stopped (fault : ε) (state : σ)
deriving Repr

namespace Progress

variable {σ ε : Type}

/-- The state reached. -/
def state : Progress σ ε → σ
  | .finished s => s
  | .stopped _ s => s

def fault? : Progress σ ε → Option ε
  | .finished _ => none
  | .stopped e _ => some e

/-- Goes on from the state reached, unless stopped. -/
def andThen (p : Progress σ ε) (next : σ → Progress σ ε) : Progress σ ε :=
  match p with
  | .finished s => next s
  | .stopped e s => .stopped e s

/-- The same end on another state: what a pass on a copy means for the one who made the copy. -/
def withState (p : Progress σ ε) (s : σ) : Progress σ ε :=
  match p with
  | .finished _ => .finished s
  | .stopped e _ => .stopped e s

/-- A pass in two parts finishes if both of them do. -/
theorem andThen_eq_finished {p : Progress σ ε} {next : σ → Progress σ ε} {c : σ} :
    p.andThen next = .finished c ↔ ∃ b, p = .finished b ∧ next b = .finished c := by
  cases p <;> simp [andThen]

theorem withState_eq_finished {p : Progress σ ε} {s c : σ} :
    p.withState s = .finished c ↔ (∃ b, p = .finished b) ∧ s = c := by
  cases p <;> simp [withState]

end Progress

end Primer
