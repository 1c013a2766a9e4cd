import VectorDisplay.Proofs.Drawing.Path
set_option autoImplicit false

namespace VectorDisplay

theorem Batch.exists_layAll_whole (batches : List Batch) (buffer : Buffer)
    (hfits : total batches ≤ buffer.remaining) :
    ∃ after, layAll batches buffer = (after, none) ∧
      after.remaining = buffer.remaining - total batches := by
  have hlaid := laid_layAll batches buffer
  have hnone := hlaid.cut_eq_none_iff.2 hfits
  exact ⟨_, Prod.ext rfl hnone, hlaid.remaining_eq⟩

section Counts

variable {α : Type} [Amount α]

/-- The samples due to demands in turn, each rounded with what the one before left over. -/
def roundAll (scale : α) : List α → (carry : α) → List ℕ
  | [], _ => []
  | demand :: rest, carry =>
    let (count, carry) := roundDemand demand scale carry
    count :: roundAll scale rest carry

namespace Stroke

variable (variants : Point → Variants) (scale : α)

def batchesOf (strokes : List (Stroke α)) (counts : List ℕ) : List Batch :=
  (strokes.zip counts).flatMap fun (s, count) => s.batches variants count

@[simp] theorem total_batches (s : Stroke α) (count : ℕ) :
    Batch.total (s.batches variants count) = count := by
  unfold Stroke.batches
  split
  · simp
  · simp only [Batch.total_cons, Batch.total_nil]
    omega

theorem emission_eq_batchesOf (strokes : List (Stroke α)) (carry : α) :
    (emission variants scale strokes carry).1 =
      batchesOf variants strokes (roundAll scale (strokes.map demand) carry) := by
  induction strokes generalizing carry with
  | nil => rfl
  | cons s rest ih => simp [emission, roundAll, batchesOf, ih]

theorem total_emission (strokes : List (Stroke α)) (carry : α) :
    Batch.total (emission variants scale strokes carry).1 =
      (roundAll scale (strokes.map demand) carry).sum := by
  induction strokes generalizing carry with
  | nil => rfl
  | cons s rest ih => simp [emission, roundAll, ih]

end Stroke

theorem Budget.exists_grant (b : Budget α) (demand : α)
    (h : b.granted + (roundDemand demand b.scale b.carry).1 < wordLimit) :
    ∃ b', b.grant demand = .ok ((roundDemand demand b.scale b.carry).1, b') ∧
      b'.scale = b.scale ∧ b'.carry = (roundDemand demand b.scale b.carry).2 ∧
      b'.granted = b.granted + (roundDemand demand b.scale b.carry).1 := by
  have hword : word (b.granted + (roundDemand demand b.scale b.carry).1) =
      .ok (b.granted + (roundDemand demand b.scale b.carry).1) := word_eq_ok_iff.2 ⟨h, rfl⟩
  simp only [Budget.grant, hword]
  exact ⟨_, rfl, rfl, rfl, rfl⟩

theorem sum_roundAll_append (variants : Point → Variants) (scale : α) (xs ys : List (Stroke α))
    (carry : α) :
    (roundAll scale ((xs ++ ys).map Stroke.demand) carry).sum =
      (roundAll scale (xs.map Stroke.demand) carry).sum +
        (roundAll scale (ys.map Stroke.demand)
          (Stroke.emission variants scale xs carry).2).sum := by
  simp only [← Stroke.total_emission variants, Stroke.emission_append, Batch.total_append]

variable (variants : Point → Variants)

theorem Stroke.exists_drawAll_whole (strokes : List (Stroke α)) (b : Budget α) (buffer : Buffer)
    (hword : b.granted + (roundAll b.scale (strokes.map demand) b.carry).sum < wordLimit)
    (hfits : (roundAll b.scale (strokes.map demand) b.carry).sum ≤ buffer.remaining) :
    ∃ b' after, drawAll variants strokes b buffer = .ok (b', after, none) ∧
      b'.granted = b.granted + (roundAll b.scale (strokes.map demand) b.carry).sum := by
  induction strokes generalizing b buffer with
  | nil => exact ⟨b, buffer, rfl, rfl⟩
  | cons s rest ih =>
    simp only [List.map_cons, roundAll, List.sum_cons] at hword hfits ⊢
    obtain ⟨b', hgrant, hscale, hcarry, hgranted⟩ := b.exists_grant s.demand (by omega)
    obtain ⟨middle, hlay, hleft⟩ := Batch.exists_layAll_whole
      (s.batches variants (roundDemand s.demand b.scale b.carry).1) buffer
      (by rw [total_batches]; omega)
    rw [total_batches] at hleft
    have hnext : (roundAll b'.scale (rest.map demand) b'.carry).sum =
        (roundAll b.scale (rest.map demand) (roundDemand s.demand b.scale b.carry).2).sum := by
      rw [hscale, hcarry]
    obtain ⟨b'', after, hrest, hsum⟩ := ih b' middle (by omega) (by omega)
    refine ⟨b'', after, ?_, by omega⟩
    unfold drawAll
    simp only [hgrant, hlay]
    exact hrest

theorem exists_drawLegs_whole (legs : List (List (Stroke α))) (b : Budget α) (buffer : Buffer)
    (hword : b.granted +
      (roundAll b.scale (legs.flatten.map Stroke.demand) b.carry).sum < wordLimit)
    (hfits : (roundAll b.scale (legs.flatten.map Stroke.demand) b.carry).sum ≤ buffer.remaining)
    (drawn : ℕ) :
    ∃ after, drawLegs variants legs b buffer drawn = .ok (after, drawn + legs.length, none) := by
  induction legs generalizing b buffer drawn with
  | nil => exact ⟨buffer, rfl⟩
  | cons strokes rest ih =>
    rw [List.flatten_cons, sum_roundAll_append variants] at hword hfits
    obtain ⟨b', middle, hdraw, hgranted⟩ := Stroke.exists_drawAll_whole variants strokes b buffer
      (by omega) (by omega)
    obtain ⟨hlaid, hend⟩ := Stroke.laid_drawAll hdraw
    obtain ⟨hscale, hcarry⟩ := hend rfl
    have hleft := hlaid.remaining_eq
    rw [Stroke.total_emission] at hleft
    have hrest : (roundAll b'.scale (rest.flatten.map Stroke.demand) b'.carry).sum =
        (roundAll b.scale (rest.flatten.map Stroke.demand)
          (Stroke.emission variants b.scale strokes b.carry).2).sum := by
      rw [hscale, hcarry]
    obtain ⟨after, hdrawn⟩ := ih b' middle (by omega) (by omega) (drawn + 1)
    refine ⟨after, ?_⟩
    unfold drawLegs
    rw [hdraw, List.length_cons, ← Nat.add_assoc, Nat.add_right_comm]
    exact hdrawn

theorem Plan.exists_draw_whole (plan : Plan α) {speed dark : α} {brightness : Point → α}
    {buffer : Buffer} {scale : α} (hscale : scaleFor plan.total buffer.remaining = some scale)
    {strokes : List (Stroke α)}
    (hstrokes : plan.legs.flatMap (Leg.strokes speed dark brightness) = strokes)
    (hword : (roundAll scale (strokes.map Stroke.demand) Amount.zero).sum < wordLimit)
    (hfits : (roundAll scale (strokes.map Stroke.demand) Amount.zero).sum ≤ buffer.remaining) :
    ∃ after, plan.draw speed dark brightness variants buffer =
        .ok ⟨after, some scale, plan.legs.length, none⟩ ∧
      after.toList = buffer.toList ++ Batch.stream (Stroke.batchesOf variants strokes
        (roundAll scale (strokes.map Stroke.demand) Amount.zero)) buffer.size ∧
      after.size = buffer.size + (roundAll scale (strokes.map Stroke.demand) Amount.zero).sum ∧
      after.remaining = buffer.remaining -
        (roundAll scale (strokes.map Stroke.demand) Amount.zero).sum := by
  subst hstrokes
  have hbudget : Budget.ofTotal plan.total buffer.remaining = some (.ofScale scale) := by
    rw [Budget.ofTotal, hscale]
    rfl
  rw [List.flatMap_def] at hword hfits ⊢
  obtain ⟨after, hdrawn⟩ := exists_drawLegs_whole variants
    (plan.legs.map (Leg.strokes speed dark brightness)) (.ofScale scale) buffer
    (by rw [Budget.ofScale, Nat.zero_add]; exact hword) hfits 0
  have hlaid := laid_drawLegs hdrawn
  have htotal : Batch.total (Stroke.emission variants scale
      (plan.legs.map (Leg.strokes speed dark brightness)).flatten Amount.zero).1 ≤
        buffer.remaining := by
    rwa [Stroke.total_emission]
  refine ⟨after, ?_, ?_, ?_, ?_⟩
  · unfold Plan.draw
    simp only [hbudget, hdrawn, List.length_map, Nat.zero_add]
    rfl
  · rw [hlaid.toList_eq, List.take_of_length_le (by rw [Batch.length_stream]; exact htotal),
      ← Stroke.emission_eq_batchesOf]
    rfl
  · rw [← Stroke.total_emission variants, ← Nat.min_eq_right htotal]
    exact hlaid.size_eq
  · rw [← Stroke.total_emission variants]
    exact hlaid.remaining_eq

theorem Plan.draw_blank (plan : Plan α) {speed dark : α} {brightness : Point → α} {buffer : Buffer}
    (hscale : scaleFor plan.total buffer.remaining = none) :
    plan.draw speed dark brightness variants buffer = .ok ⟨buffer, none, 0, none⟩ := by
  simp only [draw, Budget.ofTotal, hscale]
  rfl

theorem Plan.cut_eq_none_iff {plan : Plan α} {speed dark : α} {brightness : Point → α}
    {buffer : Buffer} {scale : α} (hscale : scaleFor plan.total buffer.remaining = some scale)
    {d : Drawing α} (h : plan.draw speed dark brightness variants buffer = .ok d) :
    d.scale = some scale ∧ (d.cut = none ↔
      (roundAll scale ((plan.legs.flatMap (Leg.strokes speed dark brightness)).map Stroke.demand)
        Amount.zero).sum ≤ buffer.remaining) := by
  have hbudget : Budget.ofTotal plan.total buffer.remaining = some (.ofScale scale) := by
    rw [Budget.ofTotal, hscale]
    rfl
  unfold draw at h
  simp only [hbudget] at h
  split at h
  · cases h
  · next hlegs =>
    cases h
    refine ⟨rfl, ?_⟩
    rw [(laid_drawLegs hlegs).cut_eq_none_iff, Stroke.total_emission, ← List.flatMap_def]
    rfl

def drawInOrder (distance : Point → Point → Checked α) (speed dark : α) (brightness : Point → α)
    (variants : Point → Variants) (arranged : List Contour) (buffer : Buffer) :
    Checked (Plan α × Drawing α) :=
  match Plan.ofContours distance speed brightness arranged with
  | .error fault => .error fault
  | .ok plan =>
    match plan.draw speed dark brightness variants buffer with
    | .error fault => .error fault
    | .ok drawing => .ok (plan, drawing)

end Counts

theorem ContourStyle.draw_eq [Hypot] (style : ContourStyle) (p : Picture) (contours : List Contour)
    (buffer : Buffer) :
    style.draw p contours buffer =
      match style.ordering.arrange (style.keep contours) with
      | .error fault => .error fault
      | .ok arranged =>
        match drawInOrder Point.distance style.speed (clampUnit style.dark) p.ink
          (Projection.variants ⟨p.width, p.height, style.dither⟩) arranged buffer with
        | .error fault => .error fault
        | .ok (plan, d) =>
          .ok ({ mode := .contour, seen := contours.length, kept := (style.keep contours).length
                 drawn := d.drawn, demand := plan.total, scale := d.scale.getD 0.0
                 pathSamples := d.buffer.size - buffer.size, fillSamples := d.buffer.remaining
                 cut := d.cut }, (d.buffer.fill (.ofPlace style.park .off)).2) := by
  have hink : (fun pt : Point => Float.ofNat (p.brightness pt.x pt.y).toNat) = p.ink := rfl
  simp only [draw, drawInOrder, hink]
  cases style.ordering.arrange (style.keep contours) with
  | error fault => rfl
  | ok arranged =>
    cases hplan : Plan.ofContours Point.distance style.speed p.ink arranged with
    | error fault => simp only [hplan]
    | ok plan =>
      cases hd : plan.draw style.speed (clampUnit style.dark) p.ink
          (Projection.variants ⟨p.width, p.height, style.dither⟩) buffer with
      | error fault => simp only [hplan, hd]
      | ok d => simp [hplan, hd]

end VectorDisplay
