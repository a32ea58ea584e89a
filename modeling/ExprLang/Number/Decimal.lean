import ExprLang.Number.Magnitude

/-! # Decimals and magnitudes

A `Decimal` is a coefficient with a power of ten.  `Magnitude.ofDecimal?` reads
one: the nearest magnitude, a half to the even one, `none` above the greatest.
`Magnitude.shortest` goes the other way: of the decimals that read back as the
magnitude it gives one with the fewest digits, and of those the nearest.

The search goes from coarse to fine powers of ten and tests the two neighbours
of the magnitude on each by reading them; the finest power holds the magnitude
exactly, so it ends with one that reads back. -/

namespace ExprLang

/-- The number `coefficient * 10 ^ exponent`. -/
structure Decimal where
  coefficient : Nat
  exponent : Int
deriving DecidableEq, Repr

namespace Decimal

/-- Coefficient digits in base ten. -/
def digits (d : Decimal) : List Char := Nat.toDigits 10 d.coefficient

/-- Where the decimal point stands, counted in digits from the first one. -/
def point (d : Decimal) : Int := d.digits.length + d.exponent

/-- Zero, or less than `10 ^ -400`; in both cases nearest to zero. -/
def isTiny (d : Decimal) : Bool :=
  d.coefficient == 0 || decide (d.exponent < -(400 + d.coefficient.log2 : Int))

/-- Above every magnitude, whatever the digits, unless it is zero. -/
def isHuge (d : Decimal) : Bool := decide (400 < d.exponent)

end Decimal

namespace Magnitude

/-- The magnitude nearest to a decimal, or `none` above the greatest.  What is far outside the range
is decided by its exponent alone. -/
def ofDecimal? (d : Decimal) : Option Magnitude :=
  if d.isTiny then
    some zero
  else if d.isHuge then
    none
  else
    match d.exponent with
    | .ofNat e => round? (d.coefficient * Nat.pow 10 e * one) 1
    | .negSucc e => round? (d.coefficient * one) (Nat.pow 10 (e + 1))

/-- A unit is `10 ^ -1074` times this. -/
def decimalUnit : Nat := Nat.pow 5 1074

/-- The decimal that a magnitude is, without any rounding. -/
def exact (m : Magnitude) : Decimal := ⟨m.units * decimalUnit, -1074⟩

/-- Of the two neighbours of `m` among the multiples of `10 ^ (scale - 1074)` the nearer one that
reads back as `m`, the greater one in a tie. -/
def neighbour? (m : Magnitude) (scale : Nat) : Option Decimal :=
  let step := Nat.pow 10 scale
  let q := m.exact.coefficient / step
  let r := m.exact.coefficient % step
  let below : Decimal := ⟨q, scale - 1074⟩
  let above : Decimal := ⟨q + 1, scale - 1074⟩
  if ofDecimal? below = some m then
    if ofDecimal? above = some m ∧ step ≤ 2 * r then some above else some below
  else if ofDecimal? above = some m then
    some above
  else
    none

/-- The first neighbour that reads back, the scale going down from the given one. -/
def shortestFrom (m : Magnitude) : Nat → Decimal
  | 0 => m.exact
  | scale + 1 => (m.neighbour? (scale + 1)).getD (m.shortestFrom scale)

/-- The decimal with the fewest digits among those that read back as `m`; of several the nearest,
the greater one in a tie. -/
def shortest (m : Magnitude) : Decimal :=
  if m.units = 0 then ⟨0, 0⟩ else m.shortestFrom m.exact.digits.length

end Magnitude

end ExprLang
