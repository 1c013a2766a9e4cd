import Mathlib.Algebra.Order.Ring.Int
import VectorDisplay.CommandLine.Values
import VectorDisplay.Proofs.Text.Numeral
set_option autoImplicit false

namespace VectorDisplay

namespace CommandLine

open Numeral

section Division

variable {isSeparator : Char → Bool} {text first second : List Char}

/-- A text in two parts with the first of some separators between them. -/
def Divided (isSeparator : Char → Bool) (text first second : List Char) : Prop :=
  ∃ c, isSeparator c = true ∧ (∀ d ∈ first, isSeparator d = false) ∧ text = first ++ c :: second

theorem divided_cons_iff {c : Char} : Divided isSeparator (c :: text) first second ↔
    if isSeparator c then first = [] ∧ second = text
    else ∃ rest, first = c :: rest ∧ Divided isSeparator text rest second := by
  constructor
  · rintro ⟨d, hd, hfirst, heq⟩
    cases first with
    | nil =>
      cases heq
      rw [if_pos hd]
      exact ⟨rfl, rfl⟩
    | cons e rest =>
      cases heq
      obtain ⟨hc, hrest⟩ := List.forall_mem_cons.1 hfirst
      rw [if_neg (by simp [hc])]
      exact ⟨rest, rfl, d, hd, hrest, rfl⟩
  · split
    · next hc =>
      rintro ⟨rfl, rfl⟩
      exact ⟨c, hc, by simp, rfl⟩
    · next hc =>
      rintro ⟨rest, rfl, d, hd, hrest, rfl⟩
      exact ⟨d, hd, List.forall_mem_cons.2 ⟨Bool.of_not_eq_true hc, hrest⟩, rfl⟩

theorem splitFirst_eq_some_iff :
    splitFirst isSeparator text = some (first, second) ↔ Divided isSeparator text first second := by
  induction text generalizing first with
  | nil => simp [splitFirst, Divided]
  | cons c rest ih =>
    rw [divided_cons_iff]
    unfold splitFirst
    split
    · rw [Option.some_inj, Prod.mk.injEq, eq_comm, @eq_comm _ rest]
    · simp only [Option.map_eq_some_iff, Prod.exists, Prod.mk.injEq]
      constructor
      · rintro ⟨before, _, hdivided, rfl, rfl⟩
        exact ⟨before, rfl, ih.1 hdivided⟩
      · rintro ⟨before, rfl, hdivided⟩
        exact ⟨before, second, ih.2 hdivided, rfl, rfl⟩

theorem readSize_eq_ok_iff {text : String} {w h : UInt32} : readSize text = .ok (w, h) ↔
    ∃ a b, Divided isTimes text.toList a b ∧ extent? a = some w ∧ extent? b = some h := by
  simp only [← splitFirst_eq_some_iff]
  unfold readSize
  cases splitFirst isTimes text.toList with
  | none => simp
  | some parts =>
    obtain ⟨a, b⟩ := parts
    cases hwidth : extent? a <;> cases hheight : extent? b <;> simp [hwidth, hheight]

theorem readPair_eq_ok_iff {β : Type} {read : List Char → Option β} {text what : String} {p q : β} :
    readPair read text what = .ok (p, q) ↔
      ∃ a b, Divided isComma text.toList a b ∧ read (trimBlank a) = some p ∧
        read (trimBlank b) = some q := by
  simp only [← splitFirst_eq_some_iff]
  unfold readPair
  cases splitFirst isComma text.toList with
  | none => simp
  | some parts =>
    obtain ⟨a, b⟩ := parts
    cases hfirst : read (trimBlank a) <;> cases hsecond : read (trimBlank b) <;>
      simp [hfirst, hsecond]

end Division

section Numbers

variable {text : List Char}

theorem map_nat?_eq_some_iff {ω : Type} {limit : Nat} {ofNat : Nat → ω} {toNat : ω → Nat} {w : ω}
    (hword : ofNat (toNat w) = w) (hlimit : toNat w < limit)
    (hnat : ∀ n < limit, toNat (ofNat n) = n) :
    (nat? limit text).map ofNat = some w ↔ Natural text (toNat w) := by
  rw [Option.map_eq_some_iff]
  constructor
  · rintro ⟨n, hread, rfl⟩
    obtain ⟨hspelled, hlt⟩ := nat?_eq_some_iff.1 hread
    rwa [hnat n hlt]
  · intro h
    exact ⟨toNat w, nat?_eq_some_iff.2 ⟨h, hlimit⟩, hword⟩

theorem extent?_eq_some_iff {w : UInt32} :
    extent? text = some w ↔ Loose (Natural · w.toNat) text := by
  rw [loose_iff fun _ => Natural.solid]
  exact map_nat?_eq_some_iff UInt32.ofNat_toNat w.toNat_lt fun n hn => UInt32.toNat_ofNat_of_lt' hn

theorem byte?_trimBlank_eq_some_iff {w : UInt8} :
    byte? (trimBlank text) = some w ↔ Loose (Natural · w.toNat) text := by
  rw [loose_iff fun _ => Natural.solid]
  exact map_nat?_eq_some_iff UInt8.ofNat_toNat w.toNat_lt fun n hn => UInt8.toNat_ofNat_of_lt' hn

theorem signed?_trimBlank_eq_some_iff {i : Int} : signed? (trimBlank text) = some i ↔
    Loose (Whole · i) text ∧ -2 ^ 63 ≤ i ∧ i < 2 ^ 63 := by
  rw [loose_iff fun _ => Whole.solid]
  exact int?_eq_some_iff (by decide)

end Numbers

section Parts

variable {text what : String}

theorem readSize_iff_spelled {w h : UInt32} : readSize text = .ok (w, h) ↔
    ∃ a b, Divided isTimes text.toList a b ∧ Loose (Natural · w.toNat) a ∧
      Loose (Natural · h.toNat) b := by
  simp only [readSize_eq_ok_iff, extent?_eq_some_iff]

theorem readPair_byte_iff_spelled {p q : UInt8} : readPair byte? text what = .ok (p, q) ↔
    ∃ a b, Divided isComma text.toList a b ∧ Loose (Natural · p.toNat) a ∧
      Loose (Natural · q.toNat) b := by
  simp only [readPair_eq_ok_iff, byte?_trimBlank_eq_some_iff]

theorem readPair_signed_iff_spelled {p q : Int} : readPair signed? text what = .ok (p, q) ↔
    ∃ a b, Divided isComma text.toList a b ∧ (Loose (Whole · p) a ∧ -2 ^ 63 ≤ p ∧ p < 2 ^ 63) ∧
      Loose (Whole · q) b ∧ -2 ^ 63 ≤ q ∧ q < 2 ^ 63 := by
  simp only [readPair_eq_ok_iff, signed?_trimBlank_eq_some_iff]

end Parts

section Separators

variable {isSeparator : Char → Bool} {first : List Char} {i : Int} {c : Char}

/-- Separators that can be told from white space, digits and signs. -/
def Apart (isSeparator : Char → Bool) : Prop :=
  ∀ c, isBlank c = true ∨ c.isDigit = true ∨ c = '+' ∨ c = '-' → isSeparator c = false

theorem apart_isTimes : Apart isTimes := by
  intro c hc
  by_contra htimes
  obtain rfl | rfl : c = 'x' ∨ c = 'X' := by simpa [isTimes, or_iff_not_imp_left] using htimes
  · revert hc
    decide
  · revert hc
    decide

theorem apart_isComma : Apart isComma := by
  intro c hc
  by_contra hcomma
  obtain rfl : c = ',' := by simpa [isComma] using hcomma
  revert hc
  decide

theorem divided_of_loose (hapart : Apart isSeparator) (hc : isSeparator c = true)
    (hfirst : Loose (Whole · i) first) (second : List Char) :
    Divided isSeparator (String.ofList (first ++ c :: second)).toList first second := by
  refine ⟨c, hc, fun d hd => hapart d ?_, String.toList_ofList⟩
  obtain ⟨before, core, after, hbefore, hcore, hafter, rfl⟩ := hfirst
  rcases List.mem_append.1 hd with hd | hd
  · rcases List.mem_append.1 hd with hd | hd
    · exact .inl (hbefore d hd)
    · exact .inr (hcore.mem hd)
  · exact .inl (hafter d hd)

end Separators

/-- Texts that hold a number as it is written, with any white space around it. -/
def Written {ν : Type} [ToString ν] (number : ν) : List Char → Prop :=
  Loose (· = (toString number).toList)

theorem Written.natural {n : Nat} {text : List Char} (h : Written n text) :
    Loose (Natural · n) text :=
  h.mono fun _ hcore => hcore ▸ natural_toString n

theorem Written.whole_of_natural {n : Nat} {text : List Char} (h : Written n text) :
    Loose (Whole · n) text := h.natural.mono fun _ => .natural

theorem Written.whole {i : Int} {text : List Char} (h : Written i text) : Loose (Whole · i) text :=
  h.mono fun _ hcore => hcore ▸ whole_toString i

/-- A size is two extents with the first `x` between them, a pair two numbers with the first comma
between them; the numbers are spelled in digits, with a sign in front and white space around them if
one likes. -/
theorem spelled_values_read (what : String) :
    (∀ (text : String) (w h : UInt32), readSize text = .ok (w, h) ↔
      ∃ a b, Divided isTimes text.toList a b ∧ Loose (Natural · w.toNat) a ∧
        Loose (Natural · h.toNat) b) ∧
    (∀ (text : String) (p q : UInt8), readPair byte? text what = .ok (p, q) ↔
      ∃ a b, Divided isComma text.toList a b ∧ Loose (Natural · p.toNat) a ∧
        Loose (Natural · q.toNat) b) ∧
    (∀ (text : String) (p q : Int), readPair signed? text what = .ok (p, q) ↔
      ∃ a b, Divided isComma text.toList a b ∧
        (Loose (Whole · p) a ∧ -2 ^ 63 ≤ p ∧ p < 2 ^ 63) ∧
        Loose (Whole · q) b ∧ -2 ^ 63 ≤ q ∧ q < 2 ^ 63) ∧
    ∀ first second : List Char,
      (∀ (w h : UInt32) (c : Char), c = 'x' ∨ c = 'X' → Written w.toNat first →
        Written h.toNat second → readSize (.ofList (first ++ c :: second)) = .ok (w, h)) ∧
      (∀ p q : UInt8, Written p.toNat first → Written q.toNat second →
        readPair byte? (.ofList (first ++ ',' :: second)) what = .ok (p, q)) ∧
      ∀ p q : Int, -2 ^ 63 ≤ p ∧ p < 2 ^ 63 → -2 ^ 63 ≤ q ∧ q < 2 ^ 63 → Written p first →
        Written q second →
        readPair signed? (.ofList (first ++ ',' :: second)) what = .ok (p, q) := by
  have hcomma : isComma ',' = true := by decide
  refine ⟨fun _ _ _ => readSize_iff_spelled, fun _ _ _ => readPair_byte_iff_spelled,
    fun _ _ _ => readPair_signed_iff_spelled, fun first second => ⟨?_, ?_, ?_⟩⟩
  · intro w h c hc hw hh
    have htimes : isTimes c = true := by simpa [isTimes] using hc
    have hdivided := divided_of_loose apart_isTimes htimes hw.whole_of_natural second
    exact readSize_iff_spelled.2 ⟨first, second, hdivided, hw.natural, hh.natural⟩
  · intro p q hp hq
    have hdivided := divided_of_loose apart_isComma hcomma hp.whole_of_natural second
    exact readPair_byte_iff_spelled.2 ⟨first, second, hdivided, hp.natural, hq.natural⟩
  · intro p q hpRange hqRange hp hq
    have hdivided := divided_of_loose apart_isComma hcomma hp.whole second
    exact readPair_signed_iff_spelled.2
      ⟨first, second, hdivided, ⟨hp.whole, hpRange⟩, hq.whole, hqRange⟩

theorem spelled_values_read_signed :
    Written (-2 ^ 63 : Int) "-9223372036854775808 ".toList ∧ Written (5 : Int) "\t5".toList ∧
      readPair signed? "-9223372036854775808 ,\t5" "pair" = .ok (-2 ^ 63, 5) ∧
      readSize "+007X 600" = .ok (7, 600) := by
  have hspace : isBlank ' ' = true := by decide
  have htab : isBlank '\t' = true := by decide
  have hfirst : Written (-2 ^ 63 : Int) "-9223372036854775808 ".toList :=
    ⟨[], _, [' '], by simp, rfl, List.forall_mem_singleton.2 hspace, by decide +kernel⟩
  have hsecond : Written (5 : Int) "\t5".toList :=
    ⟨['\t'], _, [], List.forall_mem_singleton.2 htab, rfl, by simp, by decide +kernel⟩
  have hwidth : Loose (Natural · (7 : UInt32).toNat) "+007".toList := by
    refine ⟨[], ['+', '0', '0', '7'], [], by simp, .plus ?_, by simp, by decide +kernel⟩
    exact decimal_iff.2 ⟨by decide, by simp [Char.isDigit], by decide⟩
  have hheight : Loose (Natural · (600 : UInt32).toNat) " 600".toList :=
    ⟨[' '], _, [], List.forall_mem_singleton.2 hspace, natural_toString 600, by simp,
      by decide +kernel⟩
  obtain ⟨hsize, -, -, hwritten⟩ := spelled_values_read "pair"
  exact ⟨hfirst, hsecond, (hwritten _ _).2.2 _ _ (by decide) (by decide) hfirst hsecond,
    (hsize _ _ _).2 ⟨_, _, ⟨'X', by decide, by simp [isTimes], by decide⟩, hwidth, hheight⟩⟩

end CommandLine

end VectorDisplay
