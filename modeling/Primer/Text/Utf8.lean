import Primer.Text.Quoted

/-!
Text files: bytes in UTF-8 with line ends of any kind.

The decoder reads one byte at a time. Between characters it expects a lead byte, which says how
many bytes follow and which values the first of them may have. The first fault stops it and names
the bytes of the broken character.
-/

namespace Primer.Text

/-- Why bytes are no text. -/
inductive Utf8Reason where
  | startByte
  | continuationByte
  | endOfData
deriving DecidableEq, Repr

/-- A broken character: its bytes run from offset `start` up to but without `stop`, and `first`
is the first of them. -/
structure Utf8Fault where
  reason : Utf8Reason
  first : Nat
  start : Nat
  stop : Nat
deriving DecidableEq, Repr

namespace Utf8Fault

def reasonText : Utf8Reason → String
  | .startByte => "invalid start byte"
  | .continuationByte => "invalid continuation byte"
  | .endOfData => "unexpected end of data"

def message (f : Utf8Fault) : String :=
  "'utf-8' codec can't decode " ++
    (if f.stop = f.start + 1 then
      "byte 0x" ++ String.ofList (hexText 2 f.first) ++ " in position " ++ toString f.start
    else
      "bytes in position " ++ toString f.start ++ "-" ++ toString (f.stop - 1)) ++
    ": " ++ reasonText f.reason

end Utf8Fault

/-- A character of which some bytes are read: its first byte and where it starts, how many bytes
are missing, the values the next one may have, and the bits so far. -/
structure Utf8Partial where
  first : Nat
  start : Nat
  missing : Nat
  low : Nat
  high : Nat
  bits : Nat

/-- What a lead byte of a longer character promises. -/
def utf8Lead? (b pos : Nat) : Option Utf8Partial :=
  if 0xC2 ≤ b ∧ b ≤ 0xDF then some ⟨b, pos, 1, 0x80, 0xBF, b - 0xC0⟩
  else if b = 0xE0 then some ⟨b, pos, 2, 0xA0, 0xBF, 0⟩
  else if b = 0xED then some ⟨b, pos, 2, 0x80, 0x9F, 0xD⟩
  else if 0xE1 ≤ b ∧ b ≤ 0xEF then some ⟨b, pos, 2, 0x80, 0xBF, b - 0xE0⟩
  else if b = 0xF0 then some ⟨b, pos, 3, 0x90, 0xBF, 0⟩
  else if b = 0xF4 then some ⟨b, pos, 3, 0x80, 0x8F, 4⟩
  else if 0xF1 ≤ b ∧ b ≤ 0xF3 then some ⟨b, pos, 3, 0x80, 0xBF, b - 0xF0⟩
  else none

/-- The characters of the bytes from offset `pos` on, after `done` (in reverse) and a character
that may be half read. -/
def utf8Loop (pos : Nat) (done : List Char) (part : Option Utf8Partial) :
    List UInt8 → Except Utf8Fault (List Char)
  | [] =>
    match part with
    | none => .ok done.reverse
    | some p => .error ⟨.endOfData, p.first, p.start, pos⟩
  | byte :: r =>
    let b := byte.toNat
    match part with
    | none =>
      if b < 0x80 then utf8Loop (pos + 1) (Char.ofNat b :: done) none r
      else
        match utf8Lead? b pos with
        | some p => utf8Loop (pos + 1) done (some p) r
        | none => .error ⟨.startByte, b, pos, pos + 1⟩
    | some p =>
      if p.low ≤ b ∧ b ≤ p.high then
        let bits := p.bits * 64 + (b - 0x80)
        if p.missing ≤ 1 then utf8Loop (pos + 1) (Char.ofNat bits :: done) none r
        else
          utf8Loop (pos + 1) done (some ⟨p.first, p.start, p.missing - 1, 0x80, 0xBF, bits⟩) r
      else .error ⟨.continuationByte, p.first, p.start, pos⟩

/-- Every line end becomes a line feed. -/
def unixLines : List Char → List Char
  | [] => []
  | '\r' :: '\n' :: r => '\n' :: unixLines r
  | c :: r => (if c = '\r' then '\n' else c) :: unixLines r

/-- The text of a file. -/
def ofBytes (bytes : List UInt8) : Except Utf8Fault String := do
  let cs ← utf8Loop 0 [] none bytes
  return String.ofList (unixLines cs)

end Primer.Text
