import VectorDisplay.Number.Binary
set_option autoImplicit false

namespace VectorDisplay

def withPoint (places units : Nat) : String :=
  let digits := toString (units % Nat.pow 10 places)
  toString (units / Nat.pow 10 places) ++
    if places = 0 then "" else
      "." ++ String.ofList (List.replicate (places - digits.length) '0') ++ digits

def fixedPlaces (places : Nat) (x : Float) : String :=
  let sign (negative : Bool) (text : String) : String := if negative then "-" ++ text else text
  match Binary.ofFloat x with
  | .nan => "NaN"
  | .infinite negative => sign negative "inf"
  | .finite negative mantissa exponent =>
    let (num, den) := fraction mantissa exponent
    sign negative (withPoint places (roundEven (num * Nat.pow 10 places) den))

end VectorDisplay
