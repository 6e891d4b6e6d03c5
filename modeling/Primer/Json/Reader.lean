import Primer.Json.Basic
import Primer.Number.Reading

/-!
Reading JSON text.

The reader accepts the standard format and, beyond it, the words `NaN`, `Infinity` and
`-Infinity`. Of equal keys in one object the last value counts. A value may be nested only so
deep, and a whole number may have only so many digits; the first fault in the text is reported.
-/

namespace Primer.Json

/-- Why a text is refused. -/
inductive Fault where
  | malformed
  | tooManyDigits (digits : Nat)
deriving DecidableEq, Repr

namespace Reader

def isSpace (c : Char) : Bool := c == ' ' || c == '\t' || c == '\n' || c == '\r'

def skipSpace (cs : List Char) : List Char := cs.dropWhile isSpace

def isAsciiDigit (c : Char) : Bool := '0' ≤ c && c ≤ '9'

/-- The rest of a text after a given beginning. -/
def after? : List Char → List Char → Option (List Char)
  | [], cs => some cs
  | _ :: _, [] => none
  | p :: ps, c :: cs => if p = c then after? ps cs else none

def hexValue? (c : Char) : Option Nat :=
  if '0' ≤ c && c ≤ '9' then some (c.toNat - 48)
  else if 'a' ≤ c && c ≤ 'f' then some (c.toNat - 87)
  else if 'A' ≤ c && c ≤ 'F' then some (c.toNat - 55)
  else none

/-- Four hexadecimal digits. -/
def unit? : List Char → Option (Nat × List Char)
  | a :: b :: c :: d :: r => do
    let a ← hexValue? a
    let b ← hexValue? b
    let c ← hexValue? c
    let d ← hexValue? d
    return (((a * 16 + b) * 16 + c) * 16 + d, r)
  | _ => none

/-- The character of a code unit that belongs to no pair; halves of pairs are replaced. -/
def loneUnit (n : Nat) : Char :=
  if 0xD800 ≤ n ∧ n < 0xE000 then '�' else Char.ofNat n

/-- The character of an escape by code, which may take a second unit to complete a pair. -/
def codeEscape? (cs : List Char) : Option (Char × List Char) := do
  let (high, r) ← unit? cs
  if 0xD800 ≤ high ∧ high < 0xDC00 then
    match r with
    | '\\' :: 'u' :: r' =>
      let (low, r'') ← unit? r'
      if 0xDC00 ≤ low ∧ low < 0xE000 then
        return (Char.ofNat (0x10000 + (high - 0xD800) * 0x400 + (low - 0xDC00)), r'')
      else return (loneUnit high, r)
    | _ => return (loneUnit high, r)
  else return (loneUnit high, r)

/-- The character of an escape by letter. -/
def letterEscape? : Char → Option Char
  | '"' => some '"'
  | '\\' => some '\\'
  | '/' => some '/'
  | 'b' => some '\x08'
  | 'f' => some '\x0c'
  | 'n' => some '\n'
  | 'r' => some '\r'
  | 't' => some '\t'
  | _ => none

/-- The text up to the closing quote. -/
def string : Nat → List Char → List Char → Except Fault (String × List Char)
  | 0, _, _ => .error .malformed
  | fuel + 1, done, cs =>
    match cs with
    | [] => .error .malformed
    | '"' :: r => .ok (String.ofList done.reverse, r)
    | '\\' :: 'u' :: r =>
      match codeEscape? r with
      | some (c, r) => string fuel (c :: done) r
      | none => .error .malformed
    | '\\' :: c :: r =>
      match letterEscape? c with
      | some c => string fuel (c :: done) r
      | none => .error .malformed
    | c :: r => if c.toNat < 0x20 ∨ c = '\\' then .error .malformed else string fuel (c :: done) r

/-- The digits of a whole part: a zero, or digits that start with no zero. -/
def wholePart? : List Char → Option (List Char × List Char)
  | '0' :: r => some (['0'], r)
  | cs =>
    match cs.span isAsciiDigit with
    | ([], _) => none
    | split => some split

/-- A fraction, if a digit follows the point. -/
def fractionPart : List Char → List Char × List Char
  | '.' :: r =>
    match r.span isAsciiDigit with
    | ([], _) => ([], '.' :: r)
    | split => split
  | r => ([], r)

/-- An exponent, if a digit follows the mark. -/
def exponentPart : List Char → Option Int × List Char
  | c :: r =>
    if c = 'e' ∨ c = 'E' then
      let (negative, digits) := Reading.sign r
      match digits.span isAsciiDigit with
      | ([], _) => (none, c :: r)
      | (digits, r') => (some (signed negative (Text.digitsValue digits)), r')
    else (none, c :: r)
  | [] => (none, [])

/-- A number: a whole one unless it has a fraction or an exponent. -/
def number (negative : Bool) (cs : List Char) : Except Fault (Json × List Char) :=
  match wholePart? cs with
  | none => .error .malformed
  | some (whole, r) =>
    let (fraction, r) := fractionPart r
    let (exponent, r) := exponentPart r
    if fraction.isEmpty && exponent.isNone then
      if Reading.maxDigits < whole.length then .error (.tooManyDigits whole.length)
      else .ok (.int (signed negative (Text.digitsValue whole)), r)
    else
      .ok (.float (Binary64.ofDecimal negative (Text.digitsValue (whole ++ fraction))
        (exponent.getD 0 - fraction.length)), r)

/-- The words that stand for a value, longest sign first. -/
def words : List (String × Json) := [
  ("null", .null), ("true", .bool true), ("false", .bool false), ("NaN", .float .nan),
  ("Infinity", .float (.infinite false)), ("-Infinity", .float (.infinite true))]

def word? (cs : List Char) : Option (Json × List Char) :=
  words.findSome? fun (w, j) => (after? w.toList cs).map fun r => (j, r)

mutual

/-- A value at the start of a text. `fuel` bounds the steps and `depth` the nesting. -/
def value (fuel depth : Nat) (cs : List Char) : Except Fault (Json × List Char) :=
  match fuel, depth with
  | 0, _ => .error .malformed
  | _, 0 => .error .malformed
  | fuel + 1, depth + 1 =>
    match cs with
    | '"' :: r => do
      let (s, r) ← string fuel [] r
      return (.str s, r)
    | '[' :: r =>
      match skipSpace r with
      | ']' :: r => .ok (.arr [], r)
      | r => do
        let (xs, r) ← items fuel depth r
        return (.arr xs, r)
    | '\x7b' :: r =>
      match skipSpace r with
      | '\x7d' :: r => .ok (.obj [], r)
      | r => do
        let (ms, r) ← members fuel depth [] r
        return (.obj ms, r)
    | cs =>
      match word? cs with
      | some found => .ok found
      | none =>
        match cs with
        | '-' :: r => number true r
        | r => number false r

/-- The items of an array up to its end. -/
def items (fuel depth : Nat) (cs : List Char) : Except Fault (List Json × List Char) :=
  match fuel with
  | 0 => .error .malformed
  | fuel + 1 => do
    let (x, r) ← value fuel depth cs
    match skipSpace r with
    | ']' :: r => return ([x], r)
    | ',' :: r => do
      let (xs, r) ← items fuel depth (skipSpace r)
      return (x :: xs, r)
    | _ => .error .malformed

/-- The members of an object up to its end, after those already read. -/
def members (fuel depth : Nat) (done : List (String × Json)) (cs : List Char) :
    Except Fault (List (String × Json) × List Char) :=
  match fuel with
  | 0 => .error .malformed
  | fuel + 1 =>
    match cs with
    | '"' :: r => do
      let (key, r) ← string fuel [] r
      match skipSpace r with
      | ':' :: r => do
        let (v, r) ← value fuel depth (skipSpace r)
        let done := Table.set key v done
        match skipSpace r with
        | '\x7d' :: r => return (done, r)
        | ',' :: r => members fuel depth done (skipSpace r)
        | _ => .error .malformed
      | _ => .error .malformed
    | _ => .error .malformed

end

end Reader

/-- The value of a text, nested at most `depth` deep. -/
def parse (depth : Nat) (s : String) : Except Fault Json := do
  let cs := s.toList
  let (j, r) ← Reader.value (cs.length + 1) depth (Reader.skipSpace cs)
  if (Reader.skipSpace r).isEmpty then return j else .error .malformed

end Primer.Json
