import VectorDisplay.Number.Binary
/-!
Shortest decimals. Among the decimals that read back as a given double, the fewest digits win, and
of those the one nearest to the double. A decimal reads back exactly if it lies in the interval of
values that round to the double; its ends belong to it if the mantissa is even. If a decimal with
`n` digits lies there, so does one of the two neighbours of the double on the grid of `n` digits.
-/

set_option autoImplicit false

namespace VectorDisplay

structure Decimal where
  digits : Nat
  exponent : Int
  deriving DecidableEq, Repr

/-- The values that round to one double, in fractions over a common denominator. -/
structure Rounding where
  low : Nat
  value : Nat
  high : Nat
  den : Nat
  closed : Bool

namespace Rounding

/-- The interval of a double. Below a power of two the doubles are twice as dense. -/
def ofBinary (mantissa : Nat) (exponent : Int) : Rounding :=
  let (num, den) := fraction mantissa (exponent - 2)
  let unit := num / mantissa
  let below := if mantissa = 1 <<< mantissaBits ∧ minExponent < exponent then unit else 2 * unit
  ⟨4 * num - below, 4 * num, 4 * num + 2 * unit, den, mantissa % 2 = 0⟩

def holds (r : Rounding) (digits num den : Nat) : Bool :=
  let v := digits * num * r.den
  let low := r.low * den
  let high := r.high * den
  if r.closed then low ≤ v && v ≤ high else low < v && v < high

end Rounding

def powerOfTen (e : Int) : Nat × Nat :=
  if 0 ≤ e then (Nat.pow 10 e.toNat, 1) else (1, Nat.pow 10 (-e).toNat)

def leadingExponent (num den : Nat) : Int :=
  let guess : Int := (Nat.toDigits 10 num).length - (Nat.toDigits 10 den).length
  let (up, down) := powerOfTen guess
  if num * down < den * up then guess - 1 else guess

/-- The decimal with the exponent `e` that lies in the interval nearest to its value. -/
def Rounding.onGrid? (r : Rounding) (e : Int) : Option Decimal :=
  let (up, down) := powerOfTen e
  let below := r.value * down / (r.den * up)
  let above := below + 1
  let fits (d : Nat) : Bool := r.holds d up down
  let belowDistance := r.value * down - below * (r.den * up)
  let aboveDistance := above * (r.den * up) - r.value * down
  if fits below && fits above then
    if belowDistance < aboveDistance || belowDistance = aboveDistance && below % 2 = 0 then
      some ⟨below, e⟩
    else some ⟨above, e⟩
  else if fits below then some ⟨below, e⟩
  else if fits above then some ⟨above, e⟩
  else none

def maxDigits : Nat := 17

def Decimal.trim : Nat → Decimal → Decimal
  | 0, d => d
  | fuel + 1, d => if d.digits % 10 = 0 then trim fuel ⟨d.digits / 10, d.exponent + 1⟩ else d

def shortest (mantissa : Nat) (exponent : Int) : Decimal :=
  let r := Rounding.ofBinary mantissa exponent
  let lead := leadingExponent r.value r.den
  let found := (List.range maxDigits).findSome? fun (n : Nat) => r.onGrid? (lead - (n : Int))
  (found.getD ⟨mantissa, exponent⟩).trim maxDigits

end VectorDisplay
