import VectorDisplay.Image
set_option autoImplicit false

namespace VectorDisplay

namespace Netpbm

inductive Flaw where
  | unknownFormat
  | headerEnds
  | notDigit
  | notAscii (byte : UInt8)
  | numberTooLarge
  | largestZero
  | largestTooLarge (largest : Nat)
  | largestOther (largest : Nat)
  | sizeTooLarge (width height : Nat)
  | outOfMemory
  | dataEnds
  deriving DecidableEq, Repr

namespace Flaw

def hexByte (b : UInt8) : String :=
  let digits := (Nat.toDigits 16 b.toNat).map Char.toUpper
  "0x" ++ String.ofList (List.replicate (2 - digits.length) '0' ++ digits)

def inHeader? : Flaw → Option String
  | notDigit => some "Non-ASCII-digit character when parsing number in number in preamble"
  | notAscii byte => some ("Non-ASCII character " ++ hexByte byte ++ " in header")
  | numberTooLarge => some "Overflow when parsing integer in number in preamble"
  | largestZero => some "Image MAXVAL is zero"
  | largestTooLarge largest => some ("Image MAXVAL exceeds 65535: " ++ toString largest)
  | largestOther largest => some ("Image MAXVAL is not 255: " ++ toString largest)
  | _ => none

def message : Flaw → String
  | unknownFormat => "The image format could not be determined"
  | headerEnds => "unexpected end of file"
  | sizeTooLarge width height =>
    "The decoder for Pnm does not support the format features Image dimensions (" ++
      toString width ++ "x" ++ toString height ++ ") are too large"
  | outOfMemory => "Memory limit exceeded"
  | dataEnds => "failed to fill whole buffer"
  | flaw => "Format error decoding Pnm: " ++ flaw.inHeader?.getD ""

end Flaw

def Flaw.undecoded (flaw : Flaw) : Undecoded := ⟨flaw.message, flaw.inHeader?.toList⟩

def isBlank (b : UInt8) : Bool := b = 32 || (9 ≤ b && b ≤ 13)

def isDigit (b : UInt8) : Bool := 48 ≤ b && b ≤ 57

def isLineEnd (b : UInt8) : Bool := b = 10 || b = 13

def extend (n : Option Nat) (b : UInt8) : Except Flaw (Option Nat) :=
  if 128 ≤ b then .error (.notAscii b)
  else if !isDigit b then .error .notDigit
  else
    let n := 10 * n.getD 0 + (b.toNat - 48)
    if n < 0x1_0000_0000 then .ok (some n) else .error .numberTooLarge

/-- The next number, and what follows the blank that ends it; `n` is what was read of it. -/
def number : (hidden : Bool) → (n : Option Nat) → List UInt8 → Except Flaw (Nat × List UInt8)
  | _, none, [] => .error .headerEnds
  | _, some n, [] => .ok (n, [])
  | true, n, b :: rest => number (!isLineEnd b) n rest
  | false, n, b :: rest =>
    if b = 35 then number true n rest
    else if isBlank b then
      match n with
      | none => number false none rest
      | some n => .ok (n, rest)
    else
      match extend n b with
      | .error flaw => .error flaw
      | .ok n => number false n rest

def dataLimit : Nat := 0x2000_0000

def body (kind : PixelKind) (bytes : List UInt8) : Except Flaw Image := do
  let (width, bytes) ← number false none bytes
  let (height, bytes) ← number false none bytes
  let (largest, bytes) ← number false none bytes
  let size := width * height * kind.bytes
  if largest = 0 then .error .largestZero
  else if 65535 < largest then .error (.largestTooLarge largest)
  else if largest ≠ 255 then .error (.largestOther largest)
  else if wordLimit ≤ size then .error (.sizeTooLarge width height)
  else if dataLimit < size then .error .outOfMemory
  else if bytes.length < size then .error .dataEnds
  else .ok ⟨kind, UInt32.ofNat width, UInt32.ofNat height, ⟨(bytes.take size).toArray⟩⟩

def decode (file : ByteArray) : Except Flaw Image :=
  match file.toList with
  | 80 :: 53 :: rest => body .gray rest
  | 80 :: 54 :: rest => body .rgb rest
  | _ => .error .unknownFormat

end Netpbm

end VectorDisplay
