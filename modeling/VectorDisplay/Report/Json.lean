import VectorDisplay.Number.Shortest
import VectorDisplay.Report
set_option autoImplicit false

namespace VectorDisplay

structure DecimalFormat where
  plainFrom : Int
  plainBelow : Int
  exponentMark : (negative : Bool) → String

/-- Plain from 0.00001 and below 10^16; exponents carry their sign. -/
def jsonNumber : DecimalFormat := ⟨-5, 16, fun negative => if negative then "e-" else "e+"⟩

def zeros (n : Nat) : String := String.ofList (List.replicate n '0')

namespace DecimalFormat

def plain (digits : List Char) (exponent : Int) : String :=
  let text := String.ofList digits
  if 0 ≤ exponent then text ++ zeros exponent.toNat ++ ".0"
  else
    let places := (-exponent).toNat
    if places < digits.length then
      String.ofList (digits.take (digits.length - places)) ++ "." ++
        String.ofList (digits.drop (digits.length - places))
    else "0." ++ zeros (places - digits.length) ++ text

def scientific (f : DecimalFormat) (digits : List Char) (lead : Int) : String :=
  let rest := digits.drop 1
  String.ofList (digits.take 1) ++ (if rest.isEmpty then "" else "." ++ String.ofList rest) ++
    f.exponentMark (lead < 0) ++ toString lead.natAbs

def decimal (f : DecimalFormat) (d : Decimal) : String :=
  let digits := (toString d.digits).toList
  let lead := d.exponent + digits.length - 1
  if f.plainFrom ≤ lead && lead < f.plainBelow then plain digits d.exponent
  else f.scientific digits lead

def double? (f : DecimalFormat) (x : Float) : Option String :=
  match Binary.ofFloat x with
  | .finite negative mantissa exponent =>
    let text := if mantissa = 0 then "0.0" else f.decimal (shortest mantissa exponent)
    some (if negative then "-" ++ text else text)
  | _ => none

end DecimalFormat

namespace Json

def double (x : Float) : String := (jsonNumber.double? x).getD "null"

def field (key value : String) : String := "\"" ++ key ++ "\":" ++ value

def object (fields : List String) : String := "\x7b" ++ ",".intercalate fields ++ "\x7d"

end Json

def Cut.json (c : Cut) : String :=
  Json.object [
    Json.field "requested" (toString c.requested),
    Json.field "skipped" (toString c.skipped),
    Json.field "unwritten" (toString c.unwritten),
    Json.field "written" (toString c.written)]

namespace Report

structure Position where
  frame : Nat
  time : Option Nat
  lit : Nat

def fields (r : Report) (position : Option Position) : List String :=
  let placed (f : Position → List String) : List String := (position.map f).getD []
  [Json.field "contours_emitted" (toString r.drawn),
    Json.field "contours_kept" (toString r.kept),
    Json.field "contours_seen" (toString r.seen),
    Json.field "fill_samples" (toString r.fillSamples)] ++
  placed (fun p => [Json.field "frame" (toString p.frame)]) ++
  [Json.field "generator" ("\"" ++ r.mode.name ++ "\"")] ++
  placed (fun p => [Json.field "lit_samples" (toString p.lit)]) ++
  [Json.field "path_samples" (toString r.pathSamples)] ++
  placed (fun p => [Json.field "pts_ns" ((p.time.map toString).getD "null")]) ++
  [Json.field "scale" (Json.double r.scale),
    Json.field "total_demand" (Json.double r.demand),
    Json.field "truncation" ((r.cut.map Cut.json).getD "null")]

def json (r : Report) : String := Json.object (r.fields none)

def jsonLine (r : Report) (position : Position) : String :=
  Json.object (r.fields (some position)) ++ "\n"

end Report

end VectorDisplay
