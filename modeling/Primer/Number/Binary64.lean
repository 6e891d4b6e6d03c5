/-!
Binary floating-point numbers of double precision.

A finite number is `± mantissa · 2 ^ exponent`. The functions here only build numbers in the
normal form of the format: the mantissa has 53 bits, or the exponent is the least one. All of
them compute with whole numbers, so what they do can be read off the definitions. Powers are
written `Nat.pow` and `Int.pow`, which mean the same whatever else is imported.
-/

namespace Primer

/-- `± m` as a whole number. -/
def signed (negative : Bool) (m : Nat) : Int :=
  if negative then -(m : Int) else m

/-- A number of the format, with its two infinities and one value that is no number. -/
inductive Binary64 where
  | finite (negative : Bool) (mantissa : Nat) (exponent : Int)
  | infinite (negative : Bool)
  | nan
deriving DecidableEq, Repr

namespace Binary64

/-- The exponent of the smallest numbers. -/
def minExponent : Int := -1074

/-- The exponent of the largest numbers. -/
def maxExponent : Int := 971

def zero (negative : Bool) : Binary64 := .finite negative 0 minExponent

instance : Inhabited Binary64 := ⟨zero false⟩

/-- The whole number nearest to `num / den`; a tie goes to the even neighbour. -/
def roundDiv (num den : Nat) : Nat :=
  let q := num / den
  let r := num % den
  if 2 * r < den then q
  else if den < 2 * r then q + 1
  else if q % 2 = 0 then q
  else q + 1

/-- The fraction `num / den` in units of `2 ^ e`. -/
def inUnits (num den : Nat) (e : Int) : Nat × Nat :=
  if 0 ≤ e then (num, den * Nat.pow 2 e.toNat) else (num * Nat.pow 2 (-e).toNat, den)

/-- The exponent at which `num / den` fills 53 bits, but no less than the least one. -/
def unitExponent (num den : Nat) : Int :=
  let e := max ((num.log2 : Int) - den.log2 - 53) minExponent
  let (n, d) := inUnits num den e
  if n / d < Nat.pow 2 53 then e else e + 1

/-- The number nearest to `± num / den`; a tie goes to the even mantissa, and what is too large
goes to infinity. -/
def ofRatio (negative : Bool) (num den : Nat) : Binary64 :=
  if num = 0 then zero negative
  else
    let e := unitExponent num den
    let (n, d) := inUnits num den e
    let m := roundDiv n d
    let (m, e) := if m = Nat.pow 2 53 then (Nat.pow 2 52, e + 1) else (m, e)
    if maxExponent < e then .infinite negative else .finite negative m e

/-- The number nearest to `± digits · 10 ^ exponent`. Exponents far outside the format are
answered without computing the power. -/
def ofDecimal (negative : Bool) (digits : Nat) (exponent : Int) : Binary64 :=
  if digits = 0 then zero negative
  else if 400 < exponent then .infinite negative
  else if exponent < -(400 + digits.log2 : Int) then zero negative
  else if 0 ≤ exponent then ofRatio negative (digits * Nat.pow 10 exponent.toNat) 1
  else ofRatio negative digits (Nat.pow 10 (-exponent).toNat)

/-- The number nearest to a whole number; nothing if that is an infinity. -/
def ofInt? (n : Int) : Option Binary64 :=
  match ofRatio (n < 0) n.natAbs 1 with
  | .infinite _ => none
  | x => some x

/-- Whether a number is zero, of either sign. -/
def isZero : Binary64 → Bool
  | .finite _ m _ => m == 0
  | _ => false

/-- The whole part of a finite number, rounded toward zero. -/
def truncate? : Binary64 → Option Int
  | .finite s m e =>
    some (signed s (if 0 ≤ e then m * Nat.pow 2 e.toNat else m / Nat.pow 2 (-e).toNat))
  | _ => none

/-- Equality of values: zeros of both signs agree, and `nan` agrees with nothing. -/
def same : Binary64 → Binary64 → Bool
  | .finite s m e, .finite t n f =>
    let low := min e f
    signed s m * Int.pow 2 (e - low).toNat == signed t n * Int.pow 2 (f - low).toNat
  | .infinite s, .infinite t => s == t
  | _, _ => false

/-- Whether a number is exactly a given whole number. -/
def sameInt : Binary64 → Int → Bool
  | .finite s m e, n =>
    if 0 ≤ e then signed s m * Int.pow 2 e.toNat == n
    else signed s m == n * Int.pow 2 (-e).toNat
  | _, _ => false

end Binary64

end Primer
