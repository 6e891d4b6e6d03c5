import Primer.Check.Progress
import Primer.Diagnostic.Basic
import Primer.Table
import Primer.Tree.Basic

/-!
Divisions by a value that is known to be zero.

The pass follows which variables hold a known number. Storing a literal or a variable of known
value makes the target known, and storing anything else makes it unknown. A division or modulo is
refused if its right side is a literal zero or a variable known to hold zero.

By default one table goes through every branch and every loop body as if it ran once. In scoped
mode each of them starts from a copy, and afterwards only those values stay known on which all
ways agree, the way around the branch or the loop among them.
-/

namespace Primer

/-- A division that fails. -/
inductive ZeroDivision where
  | literal (operator : String) (location : Option Span)
  | tracked (name operator : String) (location : Option Span)
deriving DecidableEq, Repr

def ZeroDivision.diagnostic : ZeroDivision → Diagnostic
  | .literal op loc => .divisionByLiteralZero op loc
  | .tracked x op loc => .divisionByTrackedZero x op loc

/-- The operators that fail on a zero. -/
def divisionOperators : List String := ["/", "%"]

namespace KnownValues

/-- The variables of known value. -/
abbrev Known := Table Number

abbrev Outcome := Progress Known ZeroDivision

/-- The values of the first table that the second one shares. -/
def meet (first second : Known) : Known :=
  first.filter fun e => (Table.get? second e.1).any fun v => v.same e.2

/-- What storing a value makes known about its target. -/
def bind (x : String) (value : Option Tree) (known : Known) : Known :=
  match value with
  | some (.literal (.int n) _) => Table.set x (.int n) known
  | some (.literal (.float v) _) => Table.set x (.float v) known
  | some (.name y _) =>
    match Table.get? known y with
    | some v => Table.set x v known
    | none => Table.erase known x
  | _ => Table.erase known x

/-- The fault of an operation with a given right side. -/
def zeroDivision? (known : Known) (operator : String) (right : Tree) (loc : Option Span) :
    Option ZeroDivision :=
  if divisionOperators.contains operator then
    match right with
    | .literal v _ => if v.number?.any Number.isZero then some (.literal operator loc) else none
    | .name x _ =>
      if (Table.get? known x).any Number.isZero then some (.tracked x operator loc) else none
    | _ => none
  else none

/-- The two ways of a decision put together. `no` is the way that starts where `yes` does, or, if
values are not kept apart, where `yes` ends. -/
def joinBranches (apart : Bool) (known : Known) (yes : Outcome) (no : Known → Outcome) : Outcome :=
  if apart then
    match yes, no known with
    | .stopped fault _, _ => .stopped fault known
    | .finished _, .stopped fault _ => .stopped fault known
    | .finished y, .finished n => .finished (meet y n)
  else yes.andThen no

/-- A loop whose body was followed once. -/
def joinLoop (apart : Bool) (known : Known) (once : Outcome) : Outcome :=
  if apart then
    match once with
    | .stopped fault _ => .stopped fault known
    | .finished k => .finished (meet known k)
  else once

mutual

/-- The values known after a tree, from those known before it. `apart` is scoped mode. -/
def check (apart : Bool) (known : Known) : Tree → Outcome
  | .literal _ _ => .finished known
  | .name _ _ => .finished known
  | .binary op l r loc =>
    match zeroDivision? known op r loc with
    | some fault => .stopped fault known
    | none => (check apart known l).andThen fun known => check apart known r
  | .declare _ x none _ => .finished (bind x none known)
  | .declare _ x (some v) _ =>
    (check apart known v).andThen fun known => .finished (bind x (some v) known)
  | .assign x v _ =>
    (check apart known v).andThen fun known => .finished (bind x (some v) known)
  | .branch c b none _ =>
    (check apart known c).andThen fun known =>
      joinBranches apart known (check apart known b) .finished
  | .branch c b (some e) _ =>
    (check apart known c).andThen fun known =>
      joinBranches apart known (check apart known b) fun known => check apart known e
  | .whileLoop c b _ =>
    (check apart known c).andThen fun known => joinLoop apart known (check apart known b)
  | .forLoop b _ => joinLoop apart known (check apart known b)
  | .ret none _ => .finished known
  | .ret (some v) _ => check apart known v
  | .block ns _ => checkAll apart known ns
  | .program ns _ => checkAll apart known ns

def checkAll (apart : Bool) (known : Known) : List Tree → Outcome
  | [] => .finished known
  | n :: ns => (check apart known n).andThen fun known => checkAll apart known ns

end

end KnownValues

end Primer
