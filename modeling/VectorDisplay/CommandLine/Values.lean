import VectorDisplay.Text.Blank
import VectorDisplay.Text.Numeral
set_option autoImplicit false

namespace VectorDisplay

namespace CommandLine

/-- The text before the first separator, and the text after it. -/
def splitFirst (isSeparator : Char → Bool) : List Char → Option (List Char × List Char)
  | [] => none
  | c :: rest =>
    if isSeparator c then some ([], rest)
    else (splitFirst isSeparator rest).map fun parts => (c :: parts.1, parts.2)

def isTimes (c : Char) : Bool := c = 'x' || c = 'X'

def isComma (c : Char) : Bool := c = ','

def extent? (text : List Char) : Option UInt32 :=
  (Numeral.nat? 0x1_0000_0000 (trimBlank text)).map UInt32.ofNat

def readSize (text : String) : Except String (UInt32 × UInt32) :=
  match splitFirst isTimes text.toList with
  | none => .error ("Invalid size: " ++ text ++ ". Use WIDTHxHEIGHT, e.g. 800x600")
  | some (width, height) =>
    match extent? width with
    | none => .error ("Invalid width in size: " ++ text)
    | some width =>
      match extent? height with
      | none => .error ("Invalid height in size: " ++ text)
      | some height => .ok (width, height)

def readPair {β : Type} (read : List Char → Option β) (text what : String) :
    Except String (β × β) :=
  let invalid : Except String (β × β) :=
    .error ("Invalid " ++ what ++ ": " ++ text ++ ". Use A,B")
  match splitFirst isComma text.toList with
  | none => invalid
  | some (first, second) =>
    match read (trimBlank first) with
    | none => invalid
    | some a =>
      match read (trimBlank second) with
      | none => invalid
      | some b => .ok (a, b)

def byte? (text : List Char) : Option UInt8 := (Numeral.nat? 0x100 text).map UInt8.ofNat

def signed? (text : List Char) : Option Int := Numeral.int? 0x8000_0000_0000_0000 text

end CommandLine

end VectorDisplay
