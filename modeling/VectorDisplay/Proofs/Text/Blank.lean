import Mathlib.Data.List.DropRight
import VectorDisplay.Text.Blank
set_option autoImplicit false

namespace VectorDisplay

/-- Texts of a kind with any white space around them. -/
def Loose (kind : List Char → Prop) (text : List Char) : Prop :=
  ∃ before core after, (∀ c ∈ before, isBlank c = true) ∧ kind core ∧
    (∀ c ∈ after, isBlank c = true) ∧ text = before ++ core ++ after

variable {before core after text : List Char}

theorem Loose.mono {kind kind' : List Char → Prop} (h : Loose kind text)
    (hkind : ∀ core, kind core → kind' core) : Loose kind' text := by
  obtain ⟨before, core, after, hbefore, hcore, hafter, heq⟩ := h
  exact ⟨before, core, after, hbefore, hkind core hcore, hafter, heq⟩

theorem dropWhile_isBlank_of_solid (hsolid : ∀ c ∈ core, isBlank c = false) :
    core.dropWhile isBlank = core := by
  cases core with
  | nil => rfl
  | cons c rest => exact List.dropWhile_cons_of_neg (by simp [hsolid c List.mem_cons_self])

theorem trimBlank_append (hbefore : ∀ c ∈ before, isBlank c = true)
    (hsolid : ∀ c ∈ core, isBlank c = false) (hafter : ∀ c ∈ after, isBlank c = true) :
    trimBlank (before ++ core ++ after) = core := by
  have hafter' : ∀ c ∈ after.reverse, isBlank c = true := by simpa using hafter
  have hsolid' : ∀ c ∈ core.reverse, isBlank c = false := by simpa using hsolid
  unfold trimBlank
  rw [List.append_assoc, List.dropWhile_append_of_pos hbefore, List.dropWhile_append,
    dropWhile_isBlank_of_solid hsolid]
  split
  · next hempty =>
    rw [List.isEmpty_iff.1 hempty, List.dropWhile_eq_nil_iff.2 hafter]
    rfl
  · rw [List.reverse_append, List.dropWhile_append_of_pos hafter',
      dropWhile_isBlank_of_solid hsolid', List.reverse_reverse]

theorem exists_eq_append_trimBlank (text : List Char) :
    ∃ before after, (∀ c ∈ before, isBlank c = true) ∧ (∀ c ∈ after, isBlank c = true) ∧
      text = before ++ trimBlank text ++ after := by
  have hinner := List.takeWhile_append_dropWhile (p := isBlank)
    (l := (text.dropWhile isBlank).reverse)
  refine ⟨text.takeWhile isBlank, ((text.dropWhile isBlank).reverse.takeWhile isBlank).reverse,
    fun c hc => List.mem_takeWhile_imp hc,
    fun c hc => List.mem_takeWhile_imp (List.mem_reverse.1 hc), ?_⟩
  rw [trimBlank, List.append_assoc, ← List.reverse_append, hinner, List.reverse_reverse,
    List.takeWhile_append_dropWhile]

theorem loose_iff {kind : List Char → Prop}
    (hsolid : ∀ core, kind core → ∀ c ∈ core, isBlank c = false) :
    Loose kind text ↔ kind (trimBlank text) := by
  constructor
  · rintro ⟨before, core, after, hbefore, hcore, hafter, rfl⟩
    rwa [trimBlank_append hbefore (hsolid core hcore) hafter]
  · intro h
    obtain ⟨before, after, hbefore, hafter, heq⟩ := exists_eq_append_trimBlank text
    exact ⟨before, _, after, hbefore, h, hafter, heq⟩

theorem isBlank_eq_false {c : Char} (hlow : 0x20 < c.toNat) (hhigh : c.toNat < 0x80) :
    isBlank c = false := by
  simp [isBlank, blankRanges]
  omega

end VectorDisplay
