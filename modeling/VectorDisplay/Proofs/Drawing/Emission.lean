import VectorDisplay.Proofs.Drawing.Laying
set_option autoImplicit false

namespace VectorDisplay

namespace Emission

variable {α : Type} [Amount α]

section Batches

variable (scale speed dark : α) (brightness : Point → α) (variants : Point → Variants)

def points : Contour → (carry : α) → List Batch × α
  | [], carry => ([], carry)
  | p :: rest, carry =>
    let (count, carry) := roundDemand (brightness p) scale carry
    let (batches, carry) := points rest carry
    (⟨count, .on, variants p⟩ :: batches, carry)

/-- The batches of a contour: the travel to its first point, dark before lit, and its points. -/
def leg (l : Leg α) (carry : α) : List Batch × α :=
  match l.contour.head? with
  | none => ([], carry)
  | some first =>
    if Amount.positive speed then
      let (count, carry) := roundDemand l.travel scale carry
      let off := min (Amount.units (Amount.whole (Amount.mul (Amount.ofNat count) dark))) count
      let (batches, carry) := points scale brightness variants l.contour carry
      (⟨off, .off, variants first⟩ :: ⟨count - off, .on, variants first⟩ :: batches, carry)
    else points scale brightness variants l.contour carry

def legs : List (Leg α) → (carry : α) → List Batch
  | [], _ => []
  | l :: rest, carry =>
    let (batches, carry) := leg scale speed dark brightness variants l carry
    batches ++ legs rest carry

end Batches

end Emission

section Strokes

variable {α : Type} [Amount α]

theorem Budget.grant_eq_ok {b b' : Budget α} {demand : α} {count : Nat}
    (h : b.grant demand = .ok (count, b')) :
    (count, b'.carry) = roundDemand demand b.scale b.carry ∧ b'.scale = b.scale := by
  unfold grant at h
  dsimp only at h
  split at h
  · cases h
  · cases h
    exact ⟨rfl, rfl⟩

namespace Stroke

variable (variants : Point → Variants) (scale : α)

def emission : List (Stroke α) → (carry : α) → List Batch × α
  | [], carry => ([], carry)
  | s :: rest, carry =>
    let (count, carry) := roundDemand s.demand scale carry
    let (batches, carry) := emission rest carry
    (s.batches variants count ++ batches, carry)

theorem emission_append (xs ys : List (Stroke α)) (carry : α) :
    emission variants scale (xs ++ ys) carry =
      ((emission variants scale xs carry).1 ++
        (emission variants scale ys (emission variants scale xs carry).2).1,
        (emission variants scale ys (emission variants scale xs carry).2).2) := by
  induction xs generalizing carry with
  | nil => rfl
  | cons s rest ih => simp [emission, ih]

theorem emission_points (brightness : Point → α) (c : Contour) (carry : α) :
    emission variants scale (c.map fun p => ⟨brightness p, p, none⟩) carry =
      Emission.points scale brightness variants c carry := by
  induction c generalizing carry with
  | nil => rfl
  | cons p rest ih => simp [emission, Emission.points, batches, ih]

theorem emission_strokes (speed dark : α) (brightness : Point → α) (l : Leg α) (carry : α) :
    emission variants scale (l.strokes speed dark brightness) carry =
      Emission.leg scale speed dark brightness variants l carry := by
  unfold Leg.strokes Emission.leg
  cases hc : l.contour with
  | nil => rfl
  | cons first rest =>
    simp only [List.head?_cons]
    split
    · simp [emission, batches, ← emission_points]
    · simp [← emission_points]

theorem emission_flatMap (speed dark : α) (brightness : Point → α) (ls : List (Leg α)) (carry : α) :
    (emission variants scale (ls.flatMap (Leg.strokes speed dark brightness)) carry).1 =
      Emission.legs scale speed dark brightness variants ls carry := by
  induction ls generalizing carry with
  | nil => rfl
  | cons l rest ih =>
    simp [emission_append, emission_strokes, Emission.legs, ih]

variable {variants scale}

theorem laid_drawAll {strokes : List (Stroke α)} {budget budget' : Budget α} {buffer after : Buffer}
    {cut : Option Cut} (h : drawAll variants strokes budget buffer = .ok (budget', after, cut)) :
    Batch.Laid (emission variants budget.scale strokes budget.carry).1 buffer after cut ∧
      (cut = none → budget'.scale = budget.scale ∧
        budget'.carry = (emission variants budget.scale strokes budget.carry).2) := by
  induction strokes generalizing budget buffer with
  | nil =>
    cases h
    exact ⟨Batch.Laid.nil _, fun _ => ⟨rfl, rfl⟩⟩
  | cons s rest ih =>
    unfold drawAll at h
    split at h
    · cases h
    · next count granted hgrant =>
      obtain ⟨hcount, hscale⟩ := Budget.grant_eq_ok hgrant
      have hs := Batch.laid_layAll (s.batches variants count) buffer
      split at h
      · next middle k hlay =>
        cases h
        rw [hlay] at hs
        simp only [emission, ← hcount, reduceCtorEq, false_implies, and_true]
        exact hs.stop
      · next middle hlay =>
        rw [hlay] at hs
        obtain ⟨hrest, hend⟩ := ih h
        rw [hscale] at hrest hend
        simp only [emission, ← hcount]
        exact ⟨hs.append hrest, hend⟩

end Stroke

variable {variants : Point → Variants}

theorem laid_drawLegs {legs : List (List (Stroke α))} {budget : Budget α} {buffer after : Buffer}
    {drawn drawn' : Nat} {cut : Option Cut}
    (h : drawLegs variants legs budget buffer drawn = .ok (after, drawn', cut)) :
    Batch.Laid (Stroke.emission variants budget.scale legs.flatten budget.carry).1
      buffer after cut := by
  induction legs generalizing budget buffer drawn with
  | nil =>
    cases h
    exact Batch.Laid.nil _
  | cons strokes rest ih =>
    unfold drawLegs at h
    rw [List.flatten_cons, Stroke.emission_append]
    split at h
    · cases h
    · next hdraw =>
      cases h
      exact (Stroke.laid_drawAll hdraw).1.stop
    · next budget' middle hdraw =>
      obtain ⟨hs, hend⟩ := Stroke.laid_drawAll hdraw
      obtain ⟨hscale, hcarry⟩ := hend rfl
      have hrest := ih h
      rw [hscale, hcarry] at hrest
      exact hs.append hrest

end Strokes

end VectorDisplay
