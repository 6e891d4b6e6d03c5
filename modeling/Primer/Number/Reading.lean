import Primer.Number.Binary64
import Primer.Text.Blank
import Primer.Text.Digit

/-!
Numbers written as text.

Blanks may surround the text, a sign may lead it, digits may come from any script, and single
underscores may stand between digits. A whole number may have at most `maxDigits` digits.
-/

namespace Primer.Reading

open Text

/-- The longest row of digits that is read as a whole number. -/
def maxDigits : Nat := 4300

/-- Why a text is no whole number. -/
inductive IntFault where
  | malformed
  | tooLong (digits : Nat)
deriving DecidableEq, Repr

/-- A sign, and whether it is negative. -/
def sign : List Char → Bool × List Char
  | '-' :: r => (true, r)
  | '+' :: r => (false, r)
  | r => (false, r)

/-- The longest row of digits and underscores at the start of a text, and what follows it. -/
def digitRun (cs : List Char) : List Char × List Char :=
  cs.span fun c => isDigit c || c == '_'

/-- Whether every underscore stands alone between two characters of the row. -/
def spacedAfter : Bool → List Char → Bool
  | after, [] => after
  | after, '_' :: r => after && spacedAfter false r
  | _, _ :: r => spacedAfter true r

/-- The whole number that a text spells. A row of too many digits is reported before anything
that follows it. -/
def int? (s : String) : Except IntFault Int :=
  let (negative, body) := sign (trimBlank s.toList)
  let (run, rest) := digitRun body
  let digits := run.filter isDigit
  if !spacedAfter false run then .error .malformed
  else if maxDigits < digits.length then .error (.tooLong digits.length)
  else if !rest.isEmpty then .error .malformed
  else .ok (signed negative (digitsValue digits))

/-- An optional exponent, which takes up the whole text. -/
def exponent? : List Char → Option Int
  | [] => some 0
  | c :: r =>
    if c = 'e' ∨ c = 'E' then
      let (negative, digits) := sign r
      if !digits.isEmpty && digits.all isDigit then
        some (signed negative (digitsValue digits))
      else none
    else none

/-- A decimal fraction with an optional exponent, without a sign. -/
def decimal? (negative : Bool) (cs : List Char) : Option Binary64 :=
  let (whole, rest) := cs.span isDigit
  let (fraction, rest) := match rest with
    | '.' :: r => r.span isDigit
    | r => ([], r)
  if whole.isEmpty && fraction.isEmpty then none
  else (exponent? rest).map fun x =>
    Binary64.ofDecimal negative (digitsValue (whole ++ fraction)) (x - fraction.length)

/-- The words for infinity and for no number, in letters of any case. -/
def word? (negative : Bool) (cs : List Char) : Option Binary64 :=
  match String.ofList (cs.map Char.toLower) with
  | "inf" => some (.infinite negative)
  | "infinity" => some (.infinite negative)
  | "nan" => some .nan
  | _ => none

/-- A text without its underscores, if each stands between two digits. -/
def withoutUnderscores? : Option Char → List Char → Option (List Char)
  | before, [] => if before = some '_' then none else some []
  | before, c :: r =>
    if c = '_' then
      if before.any isDigit then withoutUnderscores? (some c) r else none
    else if before = some '_' && !isDigit c then none
    else (withoutUnderscores? (some c) r).map (c :: ·)

/-- The floating-point number that a text spells. -/
def float? (s : String) : Option Binary64 := do
  let cs ← withoutUnderscores? none (trimBlank s.toList)
  let (negative, body) := sign cs
  word? negative body <|> decimal? negative body

end Primer.Reading
