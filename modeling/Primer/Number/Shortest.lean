import Primer.Number.Binary64

/-!
The shortest decimal text of a floating-point number.

Among the decimals that round to a number, the text shows one with the fewest digits and, of
those, the nearest. The decimals that round to `m · 2 ^ e` form an interval around it that
reaches half way to its two neighbours. A row of `n` digits is a point of the grid of multiples
of a power of ten, so the search tries coarse grids before fine ones and, on each grid, the two
points next to the number.
-/

namespace Primer.Binary64

/-- The interval of reals that round to `mantissa · 2 ^ exponent`, in units of
`2 ^ (exponent - 2)`. The lower half is half as wide where the exponent changes. -/
structure Interval where
  low : Nat
  centre : Nat
  high : Nat
  closed : Bool

def interval (m : Nat) (e : Int) : Interval where
  low := if m = Nat.pow 2 52 ∧ minExponent < e then 4 * m - 1 else 4 * m - 2
  centre := 4 * m
  high := 4 * m + 2
  closed := m % 2 == 0

/-- The step `10 ^ k` of a grid in units of `2 ^ u`, as a fraction. -/
def gridStep (k u : Int) : Nat × Nat :=
  (Nat.pow 10 k.toNat * Nat.pow 2 (-u).toNat, Nat.pow 10 (-k).toNat * Nat.pow 2 u.toNat)

/-- Whether the grid point `d` lies in the interval. -/
def Interval.holds (i : Interval) (step : Nat × Nat) (d : Nat) : Bool :=
  if i.closed then i.low * step.2 ≤ d * step.1 && d * step.1 ≤ i.high * step.2
  else i.low * step.2 < d * step.1 && d * step.1 < i.high * step.2

/-- The grid point of the interval nearest to its centre, if it holds one of the two around it;
a tie goes to the even point. -/
def Interval.nearest? (i : Interval) (step : Nat × Nat) : Option Nat :=
  let d := i.centre * step.2 / step.1
  let twice := 2 * (i.centre * step.2)
  let middle := (2 * d + 1) * step.1
  match i.holds step d, i.holds step (d + 1) with
  | true, true =>
    some (if twice < middle then d else if middle < twice then d + 1 else d + d % 2)
  | true, false => some d
  | false, true => some (d + 1)
  | false, false => none

/-- The coarsest grid from `10 ^ k` downwards that has a point in the interval, and the point.
The search ends after `n` grids. -/
def Interval.search (i : Interval) (u : Int) : Nat → Int → Nat × Int
  | 0, k =>
    let step := gridStep k u
    (i.centre * step.2 / step.1, k)
  | n + 1, k =>
    match i.nearest? (gridStep k u) with
    | some d => (d, k)
    | none => i.search u n (k - 1)

/-- A power of ten above `m · 2 ^ e`: a binary digit is worth at most 0.30103 decimal ones. -/
def topPower (m : Nat) (e : Int) : Int :=
  (m.log2 + 1 + e) * 30103 / 100000 + 2

/-- The shortest decimal `d · 10 ^ k` for `m · 2 ^ e`. Seventeen digits always suffice, and the
search starts at most three grids above the first digit. -/
def shortest (m : Nat) (e : Int) : Nat × Int :=
  (interval m e).search (e - 2) 24 (topPower m e)

/-- Zeros in a row. -/
def zeros (n : Nat) : List Char := List.replicate n '0'

/-- The exponent mark with a sign and at least two digits. -/
def exponentText (x : Int) : List Char :=
  let digits := Nat.toDigits 10 x.natAbs
  'e' :: (if x < 0 then '-' else '+') :: (zeros (2 - digits.length) ++ digits)

/-- Digits with the point set after `point` of them. Positional notation covers the numbers from
`10 ^ -4` up to `10 ^ 16`; the others take the exponent mark. -/
def layout (digits : List Char) (point : Int) : List Char :=
  if -4 < point ∧ point ≤ 16 then
    if point ≤ 0 then '0' :: '.' :: (zeros (-point).toNat ++ digits)
    else if digits.length ≤ point.toNat then
      digits ++ zeros (point.toNat - digits.length) ++ ['.', '0']
    else digits.take point.toNat ++ '.' :: digits.drop point.toNat
  else
    match digits with
    | [] => exponentText (point - 1)
    | [d] => d :: exponentText (point - 1)
    | d :: ds => d :: '.' :: (ds ++ exponentText (point - 1))

/-- The text of a number without its sign. -/
def magnitudeText (m : Nat) (e : Int) : List Char :=
  if m = 0 then ['0', '.', '0']
  else
    let (d, k) := shortest m e
    let digits := Nat.toDigits 10 d
    layout digits (digits.length + k)

/-- The text of a number: the shortest that reads back. -/
def text : Binary64 → String
  | .finite s m e => String.ofList (if s then '-' :: magnitudeText m e else magnitudeText m e)
  | .infinite s => if s then "-inf" else "inf"
  | .nan => "nan"

end Primer.Binary64
