import VectorDisplay.Picture
set_option autoImplicit false

namespace VectorDisplay

inductive PixelKind where
  | gray | grayAlpha | rgb | rgba
  | gray16
  deriving DecidableEq, Repr

namespace PixelKind

def bytes : PixelKind → Nat
  | gray => 1
  | grayAlpha => 2
  | rgb => 3
  | rgba => 4
  | gray16 => 2

/-- The brightness of a colour, in ten-thousandths of its parts, to the nearest byte. -/
def weighColour (r g b : UInt8) : UInt8 :=
  UInt8.ofNat ((2126 * r.toNat + 7152 * g.toNat + 722 * b.toNat + 5000) / 10000)

def brightness (kind : PixelKind) (part : Nat → UInt8) : UInt8 :=
  match kind with
  | gray => part 0
  | grayAlpha => part 0
  | rgb => weighColour (part 0) (part 1) (part 2)
  | rgba => weighColour (part 0) (part 1) (part 2)
  | gray16 => UInt8.ofNat (((part 0).toNat * 256 + (part 1).toNat + 128) / 257)

end PixelKind

/-- Pixels of a kind that is not listed count as the gray ones that they are converted to. -/
structure Image where
  kind : PixelKind
  width : UInt32
  height : UInt32
  data : ByteArray

namespace Image

def luma (i : Image) : ByteArray :=
  let pixel (k : Nat) : UInt8 :=
    i.kind.brightness fun part => (i.data[k * i.kind.bytes + part]?).getD 0
  (i.width.toNat * i.height.toNat).fold (fun k _ out => out.push (pixel k)) .empty

end Image

/-- Why a file gives no image: what is said about it, and the failures below that. -/
structure Undecoded where
  text : String
  deeper : List String := []

def Undecoded.cause (path : String) (u : Undecoded) : Cause := .decode path u.text u.deeper

/-- The library that reads image files. -/
class ImageLibrary where
  decode : ByteArray → Except Undecoded Image

def Picture.ofImage (i : Image) : Checked (Except Error Picture) :=
  Picture.ofBytes i.luma i.width i.height

end VectorDisplay
