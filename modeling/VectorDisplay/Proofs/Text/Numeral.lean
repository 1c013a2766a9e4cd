import Mathlib.Data.List.Induction
import VectorDisplay.Proofs.Text.Blank
import VectorDisplay.Text.Numeral
/-!
The grammar of whole numbers. A decimal is a digit, or a decimal with one more digit behind it; a
natural number may have a plus in front of it, and any other number has a minus. Main statements: the
readers accept exactly these spellings, within their limits, and numbers are spelled as they are
written.
-/

set_option autoImplicit false

namespace VectorDisplay

namespace Numeral

/-- Digits in base ten, the highest first, and the number that they stand for. -/
inductive Decimal : List Char → Nat → Prop where
  | digit {c : Char} : c.isDigit = true → Decimal [c] (c.toNat - '0'.toNat)
  | more {text : List Char} {n : Nat} {c : Char} : Decimal text n → c.isDigit = true →
    Decimal (text ++ [c]) (10 * n + (c.toNat - '0'.toNat))

inductive Natural : List Char → Nat → Prop where
  | bare {text : List Char} {n : Nat} : Decimal text n → Natural text n
  | plus {text : List Char} {n : Nat} : Decimal text n → Natural ('+' :: text) n

inductive Whole : List Char → Int → Prop where
  | natural {text : List Char} {n : Nat} : Natural text n → Whole text n
  | minus {text : List Char} {n : Nat} : Decimal text n → Whole ('-' :: text) (-n)

variable {text : List Char} {n : Nat} {i : Int}

theorem decimal_iff : Decimal text n ↔
    text ≠ [] ∧ (∀ c ∈ text, c.isDigit = true) ∧ Nat.ofDigitChars 10 text 0 = n := by
  constructor
  · intro h
    induction h with
    | digit hc => simp [hc, Nat.ofDigitChars]
    | more h hc ih =>
      obtain ⟨-, hall, rfl⟩ := ih
      refine ⟨by simp, ?_, by rw [Nat.ofDigitChars_append]; rfl⟩
      simpa [or_imp, forall_and, hc] using hall
  · rintro ⟨hne, hall, rfl⟩
    induction text using List.reverseRecOn with
    | nil => exact absurd rfl hne
    | append_singleton text c ih =>
      simp only [List.mem_append, List.mem_singleton, or_imp, forall_and, forall_eq] at hall
      obtain ⟨htext, hc⟩ := hall
      rcases List.eq_nil_or_concat text with rfl | ⟨_, _, hcons⟩
      · simpa [Nat.ofDigitChars] using Decimal.digit hc
      · rw [Nat.ofDigitChars_append]
        exact .more (ih (by simp [hcons]) htext) hc

theorem digits?_eq_some_iff : digits? text = some n ↔ Decimal text n := by
  have hchecked : (text.isEmpty || !text.all Char.isDigit) = false ↔
      text ≠ [] ∧ ∀ c ∈ text, c.isDigit = true := by simp
  rw [decimal_iff]
  unfold digits?
  by_cases h : text ≠ [] ∧ ∀ c ∈ text, c.isDigit = true
  · rw [if_neg (by simp [hchecked.2 h]), Option.some_inj]
    exact ⟨fun hvalue => ⟨h.1, h.2, hvalue⟩, fun ⟨_, _, hvalue⟩ => hvalue⟩
  · rw [if_pos (Bool.of_not_eq_false (mt hchecked.1 h))]
    exact ⟨nofun, fun ⟨hne, hall, _⟩ => absurd ⟨hne, hall⟩ h⟩

theorem Decimal.isDigit (h : Decimal text n) : ∀ c ∈ text, c.isDigit = true := (decimal_iff.1 h).2.1

theorem decimal_toDigits (n : Nat) : Decimal (Nat.toDigits 10 n) n :=
  decimal_iff.2 ⟨Nat.toDigits_ne_nil,
    fun _ hc => Nat.isDigit_of_mem_toDigits (by decide) (by decide) hc,
    Nat.ofDigitChars_ten_toDigits⟩

theorem nat?_eq_some_iff {limit : Nat} : nat? limit text = some n ↔ Natural text n ∧ n < limit := by
  have hsigned (rest : List Char) : Natural ('+' :: rest) n ↔ Decimal rest n := by
    constructor
    · rintro (h | h)
      · exact absurd (h.isDigit '+' List.mem_cons_self) (by decide)
      · exact h
    · exact .plus
  have hbare (h : ∀ rest, text ≠ '+' :: rest) : Natural text n ↔ Decimal text n := by
    constructor
    · rintro (hn | hn)
      · exact hn
      · exact absurd rfl (h _)
    · exact .bare
  unfold nat?
  rw [Option.filter_eq_some_iff]
  split
  · rw [digits?_eq_some_iff, hsigned, decide_eq_true_iff]
  · next hplain => rw [digits?_eq_some_iff, hbare hplain, decide_eq_true_iff]

theorem splitSign_of_decimal (h : Decimal text n) : splitSign text = (false, text) := by
  unfold splitSign
  split
  · exact absurd (h.isDigit '+' List.mem_cons_self) (by decide)
  · exact absurd (h.isDigit '-' List.mem_cons_self) (by decide)
  · rfl

theorem whole_iff : Whole text i ↔
    ∃ n, Decimal (splitSign text).2 n ∧ i = if (splitSign text).1 then -(n : Int) else n := by
  constructor
  · rintro ((h | h) | h)
    · exact ⟨_, by rwa [splitSign_of_decimal h], by rw [splitSign_of_decimal h]; rfl⟩
    · exact ⟨_, h, rfl⟩
    · exact ⟨_, h, rfl⟩
  · rintro ⟨n, h, rfl⟩
    unfold splitSign at h ⊢
    split at h
    · exact .natural (.plus h)
    · exact .minus h
    · exact .natural (.bare h)

theorem int?_eq_some_iff {limit : Nat} (hlimit : 0 < limit) : int? limit text = some i ↔
    Whole text i ∧ -(limit : Int) ≤ i ∧ i < limit := by
  rw [whole_iff]
  unfold int?
  generalize splitSign text = signed
  obtain ⟨negative, digits⟩ := signed
  dsimp only
  cases hdigits : digits? digits with
  | none =>
    refine ⟨nofun, fun ⟨⟨n, hn, _⟩, _⟩ => ?_⟩
    rw [digits?_eq_some_iff.2 hn] at hdigits
    cases hdigits
  | some n =>
    have hunique : ∀ m, Decimal digits m ↔ m = n := fun m => by
      rw [← digits?_eq_some_iff, hdigits, Option.some_inj, eq_comm]
    simp only [hunique, exists_eq_left]
    cases negative with
    | false =>
      simp only [Bool.false_eq_true, if_false, Option.ite_none_right_eq_some, Option.some_inj]
      omega
    | true =>
      simp only [if_true, Option.ite_none_right_eq_some, Option.some_inj]
      omega

section Solid

theorem isBlank_of_isDigit {c : Char} (h : c.isDigit = true) : isBlank c = false := by
  obtain ⟨hlow, hhigh⟩ := Char.isDigit_iff_toNat.1 h
  exact isBlank_eq_false (lt_of_lt_of_le (by decide) hlow) (lt_of_le_of_lt hhigh (by decide))

theorem Whole.mem (h : Whole text i) {c : Char} (hc : c ∈ text) :
    c.isDigit = true ∨ c = '+' ∨ c = '-' := by
  obtain (h | h) | h := h
  · exact .inl (h.isDigit c hc)
  · rcases List.mem_cons.1 hc with rfl | hc
    · exact .inr (.inl rfl)
    · exact .inl (h.isDigit c hc)
  · rcases List.mem_cons.1 hc with rfl | hc
    · exact .inr (.inr rfl)
    · exact .inl (h.isDigit c hc)

theorem Whole.solid (h : Whole text i) : ∀ c ∈ text, isBlank c = false := by
  intro c hc
  rcases h.mem hc with hdigit | rfl | rfl
  · exact isBlank_of_isDigit hdigit
  · decide
  · decide

theorem Natural.solid (h : Natural text n) : ∀ c ∈ text, isBlank c = false :=
  (Whole.natural h).solid

end Solid

theorem natural_toString (n : Nat) : Natural (toString n).toList n := by
  rw [Nat.toString_eq_ofList_toDigits, String.toList_ofList]
  exact .bare (decimal_toDigits n)

theorem whole_toString (i : Int) : Whole (toString i).toList i := by
  cases i with
  | ofNat n => exact .natural (natural_toString n)
  | negSucc n =>
    have hsigned : toString (Int.negSucc n) = "-" ++ toString (n + 1) := rfl
    rw [hsigned, String.toList_append, Nat.toString_eq_ofList_toDigits]
    simp only [String.toList_ofList]
    exact .minus (decimal_toDigits (n + 1))

end Numeral

end VectorDisplay
