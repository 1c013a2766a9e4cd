set_option autoImplicit false

namespace VectorDisplay

inductive Binary where
  | nan
  | infinite (negative : Bool)
  /-- The value `± mantissa * 2 ^ exponent`. -/
  | finite (negative : Bool) (mantissa : Nat) (exponent : Int)
  deriving DecidableEq, Repr

def minExponent : Int := -1074

def mantissaBits : Nat := 52

def Binary.ofBits (bits : Nat) : Binary :=
  let negative := bits >>> 63 % 2 = 1
  let exponent := bits >>> mantissaBits % 2048
  let mantissa := bits % 1 <<< mantissaBits
  if exponent = 2047 then if mantissa = 0 then .infinite negative else .nan
  else if exponent = 0 then .finite negative mantissa minExponent
  else .finite negative (mantissa + 1 <<< mantissaBits) (minExponent + (exponent - 1 : Nat))

def Binary.ofFloat (x : Float) : Binary := ofBits x.toBits.toNat

def fraction (mantissa : Nat) (exponent : Int) : Nat × Nat :=
  if 0 ≤ exponent then (mantissa <<< exponent.toNat, 1) else (mantissa, 1 <<< (-exponent).toNat)

/-- A fraction rounded to the nearest integer, ties to the even one. -/
def roundEven (num den : Nat) : Nat :=
  let q := num / den
  let r := num % den
  if 2 * r < den then q
  else if den < 2 * r then q + 1
  else q + q % 2

end VectorDisplay
