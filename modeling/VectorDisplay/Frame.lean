import VectorDisplay.Report
import VectorDisplay.Sample.Buffer
import VectorDisplay.Sample.Codec
set_option autoImplicit false

namespace VectorDisplay

structure Frame where
  storage : Storage
  width : UInt32
  height : UInt32
  time : Option Nat
  report : Report

namespace Frame

def samples (f : Frame) : Array Sample := f.storage.samples

def capacity (f : Frame) : Nat := f.width.toNat * f.height.toNat

def bytes (f : Frame) : ByteArray := Sample.pack f.samples .empty

def lit (f : Frame) : Nat := f.samples.countP Sample.isLit

end Frame

end VectorDisplay
