import VectorDisplay.Frame
import VectorDisplay.Report.Json
set_option autoImplicit false

namespace VectorDisplay

def IsLine (s : String) : Prop := '\n' ∉ s.toList

instance (s : String) : Decidable (IsLine s) := inferInstanceAs (Decidable ('\n' ∉ s.toList))

namespace IsLine

@[simp] theorem append_iff (s t : String) : IsLine (s ++ t) ↔ IsLine s ∧ IsLine t := by
  simp [IsLine]

@[simp] theorem ofList_iff (l : List Char) : IsLine (String.ofList l) ↔ '\n' ∉ l := by
  simp [IsLine]

@[simp] theorem toString_nat (n : Nat) : IsLine (toString n) := by
  intro h
  rw [Nat.toString_eq_repr, Nat.toList_repr] at h
  simpa using Nat.isDigit_of_mem_toDigits (by decide) (by decide) h

@[simp] theorem zeros (n : Nat) : IsLine (VectorDisplay.zeros n) := by
  simp [VectorDisplay.zeros, List.mem_replicate]

theorem intercalate {mark : String} (hmark : IsLine mark) {parts : List String}
    (h : ∀ s ∈ parts, IsLine s) : IsLine (mark.intercalate parts) := by
  induction parts with
  | nil => simp [IsLine]
  | cons s rest ih =>
    have hrest := ih fun t ht => h t (List.mem_cons_of_mem s ht)
    have hs : IsLine s := h s (by simp)
    cases rest with
    | nil => simpa using hs
    | cons t rest =>
      rw [String.intercalate_cons_cons, append_iff, append_iff]
      exact ⟨⟨hs, hmark⟩, hrest⟩

section Decimals

variable {digits : List Char} (h : '\n' ∉ digits)

include h

theorem take (n : Nat) : '\n' ∉ digits.take n := fun hm => h (List.mem_of_mem_take hm)

theorem drop (n : Nat) : '\n' ∉ digits.drop n := fun hm => h (List.mem_of_mem_drop hm)

theorem plain (exponent : Int) : IsLine (DecimalFormat.plain digits exponent) := by
  have hpoint : IsLine "." ∧ IsLine ".0" ∧ IsLine "0." := by decide
  unfold DecimalFormat.plain
  split
  · simp [h, hpoint]
  · dsimp only
    split
    · simp [take h, drop h, hpoint]
    · simp [h, hpoint]

theorem scientific (lead : Int) : IsLine (jsonNumber.scientific digits lead) := by
  have hmark : IsLine (jsonNumber.exponentMark (lead < 0)) := by
    cases decide (lead < 0) <;> decide
  have hrest : IsLine (if (digits.drop 1).isEmpty then "" else "." ++ String.ofList (digits.drop 1)) := by
    split
    · decide
    · have hpoint : IsLine "." := by decide
      exact (append_iff _ _).2 ⟨hpoint, (ofList_iff _).2 (drop h 1)⟩
  simp only [DecimalFormat.scientific, append_iff, ofList_iff, toString_nat, and_true]
  exact ⟨⟨take h 1, hrest⟩, hmark⟩

end Decimals

theorem decimal (d : Decimal) : IsLine (jsonNumber.decimal d) := by
  have hdigits : '\n' ∉ (toString d.digits).toList := toString_nat d.digits
  unfold DecimalFormat.decimal
  dsimp only
  split
  · exact plain hdigits _
  · exact scientific hdigits _

theorem double (x : Float) : IsLine (Json.double x) := by
  unfold Json.double DecimalFormat.double?
  split
  · next negative mantissa exponent _ =>
    have htext : IsLine (if mantissa = 0 then "0.0"
        else jsonNumber.decimal (shortest mantissa exponent)) := by
      split
      · decide
      · exact decimal _
    have hsign : IsLine "-" := by decide
    dsimp only [Option.getD_some]
    split
    · exact (append_iff _ _).2 ⟨hsign, htext⟩
    · exact htext
  · decide

theorem field {key value : String} (hkey : IsLine key) (hvalue : IsLine value) :
    IsLine (Json.field key value) := by
  have hquotes : IsLine "\"" ∧ IsLine "\":" := by decide
  simp [Json.field, hkey, hvalue, hquotes]

theorem object {fields : List String} (h : ∀ f ∈ fields, IsLine f) :
    IsLine (Json.object fields) := by
  have hbraces : IsLine "\x7b" ∧ IsLine "\x7d" ∧ IsLine "," := by decide
  simp [Json.object, hbraces, intercalate hbraces.2.2 h]

theorem cut (c : Cut) : IsLine c.json := by
  apply object
  simp only [List.forall_mem_cons, List.not_mem_nil, false_implies, implies_true, and_true]
  exact ⟨field (by decide) (toString_nat _), field (by decide) (toString_nat _),
    field (by decide) (toString_nat _), field (by decide) (toString_nat _)⟩

end IsLine

namespace Report

theorem isLine_of_mem_fields (r : Report) (position : Position) :
    ∀ f ∈ r.fields (some position), IsLine f := by
  have hname : IsLine ("\"" ++ r.mode.name ++ "\"") := by cases r.mode <;> decide
  have htime : IsLine ((position.time.map toString).getD "null") := by
    cases position.time with
    | none => decide
    | some t => exact IsLine.toString_nat t
  have hcut : IsLine ((r.cut.map Cut.json).getD "null") := by
    cases r.cut with
    | none => decide
    | some c => exact IsLine.cut c
  simp only [fields, Option.map_some, Option.getD_some, List.cons_append, List.nil_append,
    List.forall_mem_cons, List.not_mem_nil, false_implies, implies_true, and_true]
  refine ⟨.field ?_ (.toString_nat _), .field ?_ (.toString_nat _), .field ?_ (.toString_nat _),
    .field ?_ (.toString_nat _), .field ?_ (.toString_nat _), .field ?_ hname,
    .field ?_ (.toString_nat _), .field ?_ (.toString_nat _), .field ?_ htime,
    .field ?_ (.double _), .field ?_ (.double _), .field ?_ hcut⟩ <;> decide

/-- What a file of reports says about frames, of which the first has a number. -/
def lines (first : Nat) (frames : List Frame) : List String :=
  frames.mapIdx fun i f =>
    Json.object (f.report.fields (some { frame := first + i, time := f.time, lit := f.lit }))

theorem lines_concat (first : Nat) (frames : List Frame) (frame : Frame) :
    lines first (frames ++ [frame]) = lines first frames ++ [Json.object (frame.report.fields
      (some { frame := first + frames.length, time := frame.time, lit := frame.lit }))] := by
  simp [lines, List.mapIdx_concat]

theorem isLine_of_mem_lines {first : Nat} {frames : List Frame} :
    ∀ line ∈ lines first frames, IsLine line := by
  intro line hline
  obtain ⟨i, hi, rfl⟩ := List.mem_mapIdx.1 hline
  exact .object (isLine_of_mem_fields _ _)

def fileOf (lines : List String) : ByteArray := (String.join (lines.map (· ++ "\n"))).toUTF8

theorem fileOf_concat (lines : List String) (line : String) :
    fileOf (lines ++ [line]) = fileOf lines ++ (line ++ "\n").toUTF8 := by
  simp [fileOf, String.join_append, String.toUTF8_eq_toByteArray, String.toByteArray_append]

end Report

end VectorDisplay
