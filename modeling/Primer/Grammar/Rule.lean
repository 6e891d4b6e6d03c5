import Primer.Source.Position

/-!
Rules that match the start of a text.

A rule looks at the text from a cursor on. It accepts with a value and the cursor behind what it
matched, it rejects, or it gives up because the text nests too deep. Choice is ordered: the
second rule is tried only where the first rejects, and what is accepted is never taken back.
-/

namespace Primer

/-- The rest of a text and where it starts. -/
structure Cursor where
  rest : List Char
  pos : Position
deriving DecidableEq, Repr

namespace Cursor

/-- The start of a text. -/
def ofText (text : List Char) : Cursor := ⟨text, .initial⟩

/-- The cursor `n` characters further on. -/
def skip (c : Cursor) (n : Nat) : Cursor := ⟨c.rest.drop n, c.pos.advance (c.rest.take n)⟩

end Cursor

/-- What a rule answers. -/
inductive Reply (α : Type) where
  | accept (value : α) (next : Cursor)
  | reject
  | tooDeep
deriving Repr

def Reply.map {α β : Type} (f : α → β) : Reply α → Reply β
  | .accept a c => .accept (f a) c
  | .reject => .reject
  | .tooDeep => .tooDeep

def Rule (α : Type) := Cursor → Reply α

namespace Rule

variable {α β : Type}

/-- Matches nothing, and accepts. -/
def accept (a : α) : Rule α := fun c => .accept a c

/-- Gives up. -/
def tooDeep : Rule α := fun _ => .tooDeep

/-- One rule after another. -/
def andThen (p : Rule α) (q : α → Rule β) : Rule β := fun c =>
  match p c with
  | .accept a c' => q a c'
  | .reject => .reject
  | .tooDeep => .tooDeep

instance : Monad Rule where
  pure := accept
  bind := andThen

/-- The first rule, or else the second. -/
def orElse (p q : Rule α) : Rule α := fun c =>
  match p c with
  | .reject => q c
  | r => r

instance : OrElse (Rule α) where
  orElse p q := orElse p (q ())

/-- The rule if it accepts, and nothing if it rejects. -/
def optional (p : Rule α) : Rule (Option α) := fun c =>
  match p c with
  | .accept a c' => .accept (some a) c'
  | .reject => .accept none c
  | .tooDeep => .tooDeep

/-- Accepts, without moving, where the rule rejects. -/
def absent (p : Rule α) : Rule Unit := fun c =>
  match p c with
  | .accept .. => .reject
  | .reject => .accept () c
  | .tooDeep => .tooDeep

/-- The rule as often as it accepts, but no more often than `bound` has members. -/
def manyWithin (p : Rule α) : List Char → Rule (List α)
  | [] => accept []
  | _ :: bound => fun c =>
    match p c with
    | .accept a c' => (manyWithin p bound c').map (a :: ·)
    | .reject => .accept [] c
    | .tooDeep => .tooDeep

/-- The rule as often as it accepts. A rule that takes at least one character each time cannot
accept more often than there are characters. -/
def many (p : Rule α) : Rule (List α) := fun c => manyWithin p c.rest c

/-- The word that a measure of the text finds. -/
def lexeme (measure : List Char → Option Nat) : Rule (List Char) := fun c =>
  match measure c.rest with
  | some n => .accept (c.rest.take n) (c.skip n)
  | none => .reject

/-- The rule together with the range it matched. -/
def located (p : Rule α) : Rule (α × Span) := fun c =>
  match p c with
  | .accept a c' => .accept (a, ⟨c.pos, c'.pos⟩) c'
  | .reject => .reject
  | .tooDeep => .tooDeep

/-- The rule without its value. -/
def ignore (p : Rule α) : Rule Unit := fun c => (p c).map fun _ => ()

end Rule

end Primer
