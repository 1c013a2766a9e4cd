import VectorDisplay.Sample.Codec
set_option autoImplicit false

namespace VectorDisplay

theorem toList_loop_eq (bytes : ByteArray) (i : Nat) (read : List UInt8) :
    ByteArray.toList.loop bytes i read = read.reverse ++ bytes.data.toList.drop i := by
  induction i, read using ByteArray.toList.loop.induct bytes with
  | case1 i read hlt ih =>
    have hi : i < bytes.data.toList.length := hlt
    have hget : bytes.get! i = bytes.data.toList[i] := getElem!_pos bytes.data i hlt
    rw [ByteArray.toList.loop, if_pos hlt, ih, List.drop_eq_getElem_cons hi, hget]
    simp
  | case2 i read hge =>
    have hi : bytes.data.toList.length ≤ i := Nat.le_of_not_lt hge
    rw [ByteArray.toList.loop, if_neg hge, List.drop_eq_nil_of_le hi, List.append_nil]

theorem toList_eq_toList_data (bytes : ByteArray) : bytes.toList = bytes.data.toList := by
  rw [ByteArray.toList, toList_loop_eq]
  rfl

namespace Sample

theorem pushRecord_eq (out : ByteArray) (s : Sample) :
    pushRecord out s = out ++ s.record.toByteArray := by
  apply ByteArray.ext
  simp [pushRecord, record, ← Array.toList_inj]

theorem pack_eq (samples : Array Sample) (out : ByteArray) :
    pack samples out = out ++ (samples.toList.flatMap record).toByteArray := by
  obtain ⟨samples⟩ := samples
  simp only [pack, List.foldl_toArray]
  induction samples generalizing out with
  | nil => simp
  | cons s rest ih =>
    rw [List.foldl_cons, ih, pushRecord_eq, List.flatMap_cons, List.toByteArray_append,
      ByteArray.append_assoc]

theorem length_flatMap_record (samples : List Sample) :
    (samples.flatMap record).length = recordSize * samples.length := by
  induction samples with
  | nil => rfl
  | cons s rest ih =>
    simp only [List.flatMap_cons, List.length_append, ih, record, recordSize, List.length_cons,
      List.length_nil]
    omega

theorem size_pack (samples : Array Sample) (out : ByteArray) :
    (pack samples out).size = out.size + recordSize * samples.size := by
  rw [pack_eq, ByteArray.size_append, List.size_toByteArray, length_flatMap_record,
    Array.length_toList]

theorem readRecords_flatMap_record (samples : List Sample) (read : Array Sample) :
    readRecords (samples.flatMap record) read = read ++ samples := by
  induction samples generalizing read with
  | nil => simp [readRecords]
  | cons s rest ih => simp [record, readRecords, ih]

theorem unpack_pack_empty (samples : Array Sample) :
    unpack (pack samples .empty) = .ok samples := by
  have hsize : (pack samples .empty).size % recordSize = 0 := by simp [size_pack]
  have hbytes : (pack samples .empty).toList = samples.toList.flatMap record := by
    rw [toList_eq_toList_data, pack_eq, ByteArray.empty_append, List.toList_data_toByteArray]
  rw [unpack, if_neg (by simp [hsize]), hbytes, readRecords_flatMap_record]
  simp

end Sample

end VectorDisplay
