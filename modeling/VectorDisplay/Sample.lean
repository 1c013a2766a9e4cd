set_option autoImplicit false

namespace VectorDisplay

structure Sample where
  x : UInt8
  y : UInt8
  intensity : UInt8
  deriving DecidableEq, Repr

inductive Beam where
  | off | on
  deriving DecidableEq, Repr

def Beam.intensity : Beam → UInt8
  | off => 0
  | on => 255

abbrev Place := UInt8 × UInt8

namespace Sample

def ofPlace (place : Place) (beam : Beam) : Sample := ⟨place.1, place.2, beam.intensity⟩

def isLit (s : Sample) : Bool := s.intensity ≠ 0

end Sample

end VectorDisplay
