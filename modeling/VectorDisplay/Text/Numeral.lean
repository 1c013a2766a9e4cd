set_option autoImplicit false

namespace VectorDisplay

namespace Numeral

def digits? (text : List Char) : Option Nat :=
  if text.isEmpty || !text.all Char.isDigit then none
  else some (text.foldl (fun n c => 10 * n + (c.toNat - '0'.toNat)) 0)

def splitSign : List Char → Bool × List Char
  | '+' :: rest => (false, rest)
  | '-' :: rest => (true, rest)
  | text => (false, text)

def nat? (limit : Nat) (text : List Char) : Option Nat :=
  let digits := match text with
    | '+' :: rest => rest
    | _ => text
  (digits? digits).filter (· < limit)

/-- Digits after an optional sign, with a value from `-limit` to `limit`, exclusive above. -/
def int? (limit : Nat) (text : List Char) : Option Int :=
  let (negative, digits) := splitSign text
  match digits? digits with
  | none => none
  | some n =>
    if negative then if n ≤ limit then some (-(n : Int)) else none
    else if n < limit then some n else none

inductive Literal where
  | nan
  | infinite (negative : Bool)
  | decimal (negative : Bool) (mantissa : Nat) (exponent : Int)

def exponent? : List Char → Option Int
  | [] => some 0
  | c :: rest =>
    if c = 'e' || c = 'E' then
      let (negative, digits) := splitSign rest
      (digits? digits).map fun n => if negative then -(n : Int) else n
    else none

def decimal? (negative : Bool) (text : List Char) : Option Literal :=
  let whole := text.takeWhile Char.isDigit
  let rest := text.dropWhile Char.isDigit
  let (places, rest) := match rest with
    | '.' :: rest => (rest.takeWhile Char.isDigit, rest.dropWhile Char.isDigit)
    | _ => ([], rest)
  match digits? (whole ++ places), exponent? rest with
  | some mantissa, some e => some (.decimal negative mantissa (e - places.length))
  | _, _ => none

def literal? (text : List Char) : Option Literal :=
  let (negative, rest) := splitSign text
  let lower := String.ofList (rest.map Char.toLower)
  if lower = "inf" || lower = "infinity" then some (.infinite negative)
  else if lower = "nan" then some .nan
  else decimal? negative rest

/-- Beyond this power of ten everything is infinite or zero. -/
def decadeLimit : Int := 400

def Literal.round {β : Type} (nan infinity : β) (neg : β → β)
    (ofScientific : Nat → Bool → Nat → β) (l : Literal) : β :=
  let signed (negative : Bool) (x : β) : β := if negative then neg x else x
  match l with
  | .nan => nan
  | .infinite negative => signed negative infinity
  | .decimal negative mantissa exponent =>
    let decades : Int := exponent + (Nat.toDigits 10 mantissa).length
    signed negative <|
      if mantissa = 0 || decades < -decadeLimit then ofScientific 0 false 0
      else if decadeLimit < decades then infinity
      else ofScientific mantissa (exponent < 0) exponent.natAbs

def float? (text : List Char) : Option Float :=
  (literal? text).map (Literal.round (0.0 / 0.0) (1.0 / 0.0) Float.neg Float.ofScientific)

def float32? (text : List Char) : Option Float32 :=
  (literal? text).map (Literal.round (0.0 / 0.0) (1.0 / 0.0) Float32.neg Float32.ofScientific)

end Numeral

end VectorDisplay
