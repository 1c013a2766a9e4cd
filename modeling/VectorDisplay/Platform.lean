import VectorDisplay.Contour
import VectorDisplay.Image.Netpbm
import VectorDisplay.Sample.Buffer
/-!
What the program runs on: distances from a rounded square root, memory for fewer than `2 ^ 61` samples,
and a library that reads binary portable maps.
-/

set_option autoImplicit false

namespace VectorDisplay

namespace Platform

def memoryLimit : Nat := 0x2000_0000_0000_0000

scoped instance root : Hypot := ⟨fun x y => (x * x + y * y).sqrt⟩

scoped instance heap : Memory := ⟨fun bytes => bytes < Storage.sampleBytes * memoryLimit⟩

scoped instance netpbm : ImageLibrary :=
  ⟨fun file => (Netpbm.decode file).mapError Netpbm.Flaw.undecoded⟩

end Platform

end VectorDisplay
