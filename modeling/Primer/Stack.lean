/-!
The room for calls inside one another.

How deep calls may go is a matter of the machine and not of the program: what one machine reads,
another refuses for its depth. So the functions that go into the depth of a text or of a tree take
the room for it as an argument.
-/

namespace Primer

/-- How deep a machine goes, for each way into the depth. -/
structure Stack where
  /-- Levels of statements and parentheses below the statements of a program. -/
  parsing : Nat
  /-- Levels of nodes in a tree that is read. -/
  reading : Nat
  /-- Levels of values in a text with JSON. -/
  json : Nat
  /-- Calls inside one another while a tree is scored. -/
  scoring : Nat
deriving DecidableEq, Repr

/-- There is no room for another call. -/
inductive Overflow where
  | overflow
deriving DecidableEq, Repr

/-- The room that `calls` calls inside one another leave. -/
def roomInside (calls room : Nat) : Except Overflow Nat :=
  if room < calls then .error .overflow else .ok (room - calls)

end Primer
