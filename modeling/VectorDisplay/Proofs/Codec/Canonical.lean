import Mathlib.Algebra.Order.Ring.Nat
import Mathlib.Data.UInt
import VectorDisplay.Proofs.Codec
set_option autoImplicit false

namespace VectorDisplay

namespace Sample

section Streams

/-- A stream with a zero for the last byte of each record. -/
def cleared (bytes : List UInt8) : List UInt8 :=
  bytes.mapIdx fun i byte => if i % recordSize = recordSize - 1 then 0 else byte

theorem cleared_cons (x y intensity ignored : UInt8) (rest : List UInt8) :
    cleared (x :: y :: intensity :: ignored :: rest) =
      record ⟨x, y, intensity⟩ ++ cleared rest := by
  have hshift (i : Nat) : (i + 1 + 1 + 1 + 1) % recordSize = i % recordSize := Nat.add_mod_right i 4
  simp only [cleared, List.mapIdx_cons, hshift]
  rfl

theorem flatMap_record_readRecords {bytes : List UInt8} (h : bytes.length % recordSize = 0)
    (read : Array Sample) :
    (readRecords bytes read).toList.flatMap record =
      read.toList.flatMap record ++ cleared bytes := by
  induction bytes, read using readRecords.induct with
  | case1 x y intensity ignored rest read ih =>
    have hrest : rest.length % recordSize = 0 :=
      (Nat.add_mod_right rest.length recordSize).symm.trans h
    rw [readRecords, ih hrest, cleared_cons]
    simp
  | case2 bytes read hshort =>
    rcases bytes with _ | ⟨x, _ | ⟨y, _ | ⟨intensity, _ | ⟨ignored, rest⟩⟩⟩⟩
    · simp [readRecords, cleared]
    · cases h
    · cases h
    · cases h
    · exact absurd rfl (hshort x y intensity ignored rest)

theorem pack_eq_append (samples : Array Sample) (out : ByteArray) :
    pack samples out = out ++ pack samples .empty := by
  rw [pack_eq, pack_eq, ByteArray.empty_append]

theorem toList_pack_empty (samples : Array Sample) :
    (pack samples .empty).toList = samples.toList.flatMap record := by
  rw [toList_eq_toList_data, pack_eq, ByteArray.empty_append, List.toList_data_toByteArray]

theorem exists_unpack_eq_error_iff (bytes : ByteArray) :
    (∃ error, unpack bytes = .error error) ↔ ¬ recordSize ∣ bytes.size := by
  rw [Nat.dvd_iff_mod_eq_zero]
  unfold unpack
  split <;> simp_all

theorem toList_pack_of_unpack {bytes : ByteArray} {read : Array Sample}
    (h : unpack bytes = .ok read) : (pack read .empty).toList = cleared bytes.toList := by
  have hlength : bytes.toList.length = bytes.size := by
    rw [toList_eq_toList_data, Array.length_toList, ByteArray.size_data]
  unfold unpack at h
  split at h
  · cases h
  · next hwhole =>
    cases h
    have hrecords : bytes.toList.length % recordSize = 0 := by
      rw [hlength]
      exact Decidable.not_not.1 hwhole
    rw [toList_pack_empty, flatMap_record_readRecords hrecords]
    rfl

end Streams

section Words

variable (s : Sample) (w : UInt32)

def lowFirst : List UInt8 := (List.range recordSize).map fun i => .ofNat (w.toNat / 256 ^ i)

theorem toNat_toWord :
    s.toWord.toNat = s.x.toNat + 2 ^ 8 * s.y.toNat + 2 ^ 16 * s.intensity.toNat := by
  have hx := s.x.toNat_lt
  have hy := s.y.toNat_lt
  have hintensity := s.intensity.toNat_lt
  have hyShifted : s.y.toNat <<< 8 % 2 ^ 32 = 2 ^ 8 * s.y.toNat := by
    rw [Nat.shiftLeft_eq, Nat.mul_comm, Nat.mod_eq_of_lt (by omega)]
  have hintensityShifted : s.intensity.toNat <<< 16 % 2 ^ 32 = 2 ^ 16 * s.intensity.toNat := by
    rw [Nat.shiftLeft_eq, Nat.mul_comm, Nat.mod_eq_of_lt (by omega)]
  calc s.toWord.toNat
      = s.x.toNat ||| s.y.toNat <<< 8 % 2 ^ 32 ||| s.intensity.toNat <<< 16 % 2 ^ 32 := by
        simp only [toWord, UInt32.toNat_or, UInt32.toNat_shiftLeft, UInt8.toNat_toUInt32]
        rfl
    _ = 2 ^ 16 * s.intensity.toNat ||| (2 ^ 8 * s.y.toNat ||| s.x.toNat) := by
        rw [hyShifted, hintensityShifted, Nat.or_comm, Nat.or_comm s.x.toNat]
    _ = 2 ^ 16 * s.intensity.toNat + (2 ^ 8 * s.y.toNat + s.x.toNat) := by
        rw [Nat.two_pow_add_eq_or_of_lt (by omega), Nat.two_pow_add_eq_or_of_lt hx]
    _ = s.x.toNat + 2 ^ 8 * s.y.toNat + 2 ^ 16 * s.intensity.toNat := by omega

theorem toNat_x_ofWord : (ofWord w).x.toNat = w.toNat % 2 ^ 8 := UInt32.toNat_toUInt8 w

theorem toNat_y_ofWord : (ofWord w).y.toNat = w.toNat / 2 ^ 8 % 2 ^ 8 := by
  rw [ofWord, UInt32.toNat_toUInt8, UInt32.toNat_shiftRight, ← Nat.shiftRight_eq_div_pow]
  rfl

theorem toNat_intensity_ofWord : (ofWord w).intensity.toNat = w.toNat / 2 ^ 16 % 2 ^ 8 := by
  rw [ofWord, UInt32.toNat_toUInt8, UInt32.toNat_shiftRight, ← Nat.shiftRight_eq_div_pow]
  rfl

theorem ext_toNat {s t : Sample} (hx : s.x.toNat = t.x.toNat) (hy : s.y.toNat = t.y.toNat)
    (hintensity : s.intensity.toNat = t.intensity.toNat) : s = t := by
  rw [UInt8.toNat_inj] at hx hy hintensity
  exact (Sample.mk.injEq ..).mpr ⟨hx, hy, hintensity⟩

theorem ofWord_toWord : ofWord s.toWord = s := by
  have hx := s.x.toNat_lt
  have hy := s.y.toNat_lt
  have hintensity := s.intensity.toNat_lt
  have hword := s.toNat_toWord
  apply ext_toNat
  · rw [toNat_x_ofWord, hword]
    omega
  · rw [toNat_y_ofWord, hword]
    omega
  · rw [toNat_intensity_ofWord, hword]
    omega

theorem toWord_ofWord : (ofWord w).toWord = w % 2 ^ 24 := by
  rw [← UInt32.toNat_inj, toNat_toWord, toNat_x_ofWord, toNat_y_ofWord, toNat_intensity_ofWord,
    UInt32.toNat_mod]
  change _ = w.toNat % 2 ^ 24
  omega

theorem lowFirst_eq : lowFirst w =
    [(ofWord w).x, (ofWord w).y, (ofWord w).intensity, .ofNat (w.toNat / 2 ^ 24)] := by
  have hx : UInt8.ofNat (w.toNat / 2 ^ 0) = (ofWord w).x := by
    rw [← UInt8.toNat_inj, toNat_x_ofWord, UInt8.toNat_ofNat', Nat.pow_zero, Nat.div_one]
  have hy : UInt8.ofNat (w.toNat / 2 ^ 8) = (ofWord w).y := by
    rw [← UInt8.toNat_inj, toNat_y_ofWord, UInt8.toNat_ofNat']
  have hintensity : UInt8.ofNat (w.toNat / 2 ^ 16) = (ofWord w).intensity := by
    rw [← UInt8.toNat_inj, toNat_intensity_ofWord, UInt8.toNat_ofNat']
  rw [← hx, ← hy, ← hintensity]
  rfl

theorem lowFirst_toWord : lowFirst s.toWord = s.record := by
  have hx := s.x.toNat_lt
  have hy := s.y.toNat_lt
  have hintensity := s.intensity.toNat_lt
  have hlast : s.toWord.toNat / 2 ^ 24 = 0 := by
    rw [toNat_toWord]
    omega
  rw [lowFirst_eq, ofWord_toWord, hlast]
  rfl

theorem unpack_lowFirst : unpack (lowFirst w).toByteArray = .ok #[ofWord w] := by
  rw [lowFirst_eq, unpack, if_neg (by simp [recordSize]), toList_eq_toList_data,
    List.toList_data_toByteArray]
  rfl

end Words

/-- Samples that are written are read again, and bytes that are read are written again but for the
last byte of each record, which becomes zero. Bytes that end within a record are refused. A word has
the bytes of its record, low byte first, and 24 bits that count. -/
theorem unpack_pack_canonical :
    (∀ samples : Array Sample, unpack (pack samples .empty) = .ok samples) ∧
    (∀ (samples : Array Sample) (out : ByteArray),
      pack samples out = out ++ pack samples .empty ∧
        (pack samples out).size = out.size + 4 * samples.size) ∧
    (∀ bytes : ByteArray, (∃ error, unpack bytes = .error error) ↔ ¬ 4 ∣ bytes.size) ∧
    (∀ (bytes : ByteArray) (read : Array Sample), unpack bytes = .ok read →
      (pack read .empty).toList = cleared bytes.toList) ∧
    (∀ w : UInt32, (ofWord w).toWord = w % 2 ^ 24 ∧
      unpack (lowFirst w).toByteArray = .ok #[ofWord w]) ∧
    ∀ s : Sample, ofWord s.toWord = s ∧ lowFirst s.toWord = s.record :=
  ⟨unpack_pack_empty, fun samples out => ⟨pack_eq_append samples out, size_pack samples out⟩,
    exists_unpack_eq_error_iff, fun _ _ => toList_pack_of_unpack,
    fun w => ⟨toWord_ofWord w, unpack_lowFirst w⟩, fun s => ⟨ofWord_toWord s, lowFirst_toWord s⟩⟩

theorem unpack_pack_canonical_stray :
    unpack ⟨#[1, 2, 255, 0, 3, 4, 0, 170]⟩ = .ok #[⟨1, 2, 255⟩, ⟨3, 4, 0⟩] ∧
      (pack #[⟨1, 2, 255⟩, ⟨3, 4, 0⟩] .empty).toList = [1, 2, 255, 0, 3, 4, 0, 0] := by
  have hread : unpack ⟨#[1, 2, 255, 0, 3, 4, 0, 170]⟩ = .ok #[⟨1, 2, 255⟩, ⟨3, 4, 0⟩] := by
    rw [unpack, toList_eq_toList_data]
    rfl
  refine ⟨hread, ?_⟩
  rw [unpack_pack_canonical.2.2.2.1 _ _ hread, toList_eq_toList_data]
  rfl

end Sample

end VectorDisplay
