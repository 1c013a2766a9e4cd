import VectorDisplay.Error
import VectorDisplay.Sample
set_option autoImplicit false

namespace VectorDisplay

namespace Sample

def recordSize : Nat := 4

def record (s : Sample) : List UInt8 := [s.x, s.y, s.intensity, 0]

def toWord (s : Sample) : UInt32 :=
  s.x.toUInt32 ||| (s.y.toUInt32 <<< 8) ||| (s.intensity.toUInt32 <<< 16)

def ofWord (w : UInt32) : Sample :=
  ⟨w.toUInt8, (w >>> 8).toUInt8, (w >>> 16).toUInt8⟩

def pushRecord (out : ByteArray) (s : Sample) : ByteArray :=
  (((out.push s.x).push s.y).push s.intensity).push 0

def pack (samples : Array Sample) (out : ByteArray) : ByteArray :=
  samples.foldl pushRecord out

def readRecords : List UInt8 → Array Sample → Array Sample
  | x :: y :: intensity :: _ :: rest, read => readRecords rest (read.push ⟨x, y, intensity⟩)
  | _, read => read

/-- The samples of a record stream, which must end with a whole record. -/
def unpack (bytes : ByteArray) : Except Error (Array Sample) :=
  if bytes.size % recordSize ≠ 0 then
    .error (.of
      (.validation "record_stream" "length must be a multiple of 4" (toString bytes.size)))
  else .ok (readRecords bytes.toList #[])

end Sample

end VectorDisplay
