import Primer.Json.Display
import Primer.Number.Reading
import Primer.Source.Position

/-!
Places and numbers in JSON.

A whole number may be given as any value that stands for one, and a place may be left out. Where
a value cannot be read, the fault says why in the words that are shown to the user.
-/

namespace Primer

/-- Why a value does not stand for a number. -/
inductive NumberFault where
  | notIntegerText (text : String)
  | tooManyDigits (digits : Nat)
  | notIntegerKind (kind : String)
  | nanToInteger
  | infinityToInteger
  | notFloatText (text : String)
  | notFloatKind (kind : String)
  | integerTooLarge
  | overlong
deriving DecidableEq, Repr

namespace NumberFault

/-- A row of digits that is too long, in words. -/
def digitsMessage (digits : Nat) : String :=
  "Exceeds the limit (" ++ toString Reading.maxDigits ++
    " digits) for integer string conversion: value has " ++ toString digits ++
    " digits; use sys.set_int_max_str_digits() to increase the limit"

/-- A fault in words. Of a text that is no whole number only the beginning is quoted. -/
def message : NumberFault → String
  | .notIntegerText s =>
    "invalid literal for int() with base 10: " ++
      String.ofList ((Text.quoted s).toList.take 200)
  | .tooManyDigits n => digitsMessage n
  | .notIntegerKind k =>
    "int() argument must be a string, a bytes-like object or a real number, not '" ++ k ++ "'"
  | .nanToInteger => "cannot convert float NaN to integer"
  | .infinityToInteger => "cannot convert float infinity to integer"
  | .notFloatText s => "could not convert string to float: " ++ Text.quoted s
  | .notFloatKind k => "float() argument must be a string or a real number, not '" ++ k ++ "'"
  | .integerTooLarge => "int too large to convert to float"
  | .overlong =>
    "Exceeds the limit (" ++ toString Reading.maxDigits ++
      " digits) for integer string conversion; " ++
      "use sys.set_int_max_str_digits() to increase the limit"

/-- Whether a number is to blame that lies outside a range, and not the form of the value. -/
def isRange : NumberFault → Bool
  | .infinityToInteger => true
  | .integerTooLarge => true
  | _ => false

end NumberFault

namespace Json

/-- The whole number that a value stands for. Fractions are cut off. -/
def toInt : Json → Except NumberFault Int
  | .int n => .ok n
  | .bool b => .ok (if b then 1 else 0)
  | .float .nan => .error .nanToInteger
  | .float x =>
    match x.truncate? with
    | some n => .ok n
    | none => .error .infinityToInteger
  | .str s =>
    match Reading.int? s with
    | .ok n => .ok n
    | .error .malformed => .error (.notIntegerText s)
    | .error (.tooLong n) => .error (.tooManyDigits n)
  | j => .error (.notIntegerKind j.kindName)

/-- The floating-point number that a value stands for. -/
def toFloat : Json → Except NumberFault Binary64
  | .float x => .ok x
  | .int n =>
    match Binary64.ofInt? n with
    | some x => .ok x
    | none => .error .integerTooLarge
  | .bool b => .ok (Binary64.ofRatio false (if b then 1 else 0) 1)
  | .str s =>
    match Reading.float? s with
    | some x => .ok x
    | none => .error (.notFloatText s)
  | j => .error (.notFloatKind j.kindName)

/-- The text that a value is written as. -/
def toText (j : Json) : Except NumberFault String :=
  if j.overlong then .error .overlong else .ok j.plain

end Json

/-- Why a value is no place. -/
inductive PlaceFault where
  | notObject (kind : String)
  | number (fault : NumberFault)
deriving DecidableEq, Repr

namespace Position

def toJson (p : Position) : Json :=
  .obj [("line", .int p.line), ("column", .int p.column), ("offset", .int p.offset)]

/-- A number of a position, zero if it is left out. -/
def coordinate (members : List (String × Json)) (key : String) : Except PlaceFault Int :=
  match Json.member? key members with
  | none => .ok 0
  | some j => j.toInt.mapError .number

/-- The position of an object. What counts as false is the position of zeros. -/
def ofJson (j : Json) : Except PlaceFault Position :=
  if j.truthy then
    match j with
    | .obj ms => do
      let line ← coordinate ms "line"
      let column ← coordinate ms "column"
      let offset ← coordinate ms "offset"
      return ⟨line, column, offset⟩
    | j => .error (.notObject j.kindName)
  else .ok {}

end Position

namespace Span

def toJson (s : Span) : Json :=
  .obj [("start", s.start.toJson), ("end", s.stop.toJson)]

/-- The place of an object. What counts as false is no place. -/
def ofJson (j : Json) : Except PlaceFault (Option Span) :=
  if j.truthy then
    match j with
    | .obj ms => do
      let start ← Position.ofJson ((Json.member? "start" ms).getD .null)
      let stop ← Position.ofJson ((Json.member? "end" ms).getD .null)
      return some ⟨start, stop⟩
    | j => .error (.notObject j.kindName)
  else .ok none

end Span

/-- A place that may be missing. -/
def placeJson (loc : Option Span) : Json := Json.ofOption (loc.map Span.toJson)

/-- A line that may be missing. -/
def lineJson (line : Option Int) : Json := Json.ofOption (line.map Json.int)

end Primer
