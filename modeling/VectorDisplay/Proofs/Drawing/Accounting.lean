import VectorDisplay.Platform
import VectorDisplay.Proofs.Drawing.Demand
import VectorDisplay.Proofs.Drawing.Filling
/-!
What a report accounts for. The batches of a frame are listed contour by contour, in drawing order.
Main statement: either nothing demands samples and nothing is drawn, or all batches are laid, or
laying ends inside the contour after those that are drawn whole, and then the batches before the cut
and the part of the cut batch that still fits are all of the free space.
-/

set_option autoImplicit false

namespace VectorDisplay

open Double

/-- The cut of a batch `b` that did not fit behind the batches `fitted`. -/
structure Cut.At (cut : Cut) (fitted : List Batch) (b : Batch) (free : ℕ) : Prop where
  requested_eq : cut.requested = b.count
  written_lt : cut.written < cut.requested
  written_add_unwritten : cut.written + cut.unwritten = cut.requested
  full : Batch.total fitted + cut.written = free

namespace Cut.At

variable {cut : Cut} {fitted : List Batch} {b : Batch} {free : ℕ}

theorem skipped (h : cut.At fitted b free) (n : ℕ) : { cut with skipped := n }.At fitted b free :=
  ⟨h.requested_eq, h.written_lt, h.written_add_unwritten, h.full⟩

theorem append {xs : List Batch} (h : cut.At fitted b (free - Batch.total xs))
    (hfits : Batch.total xs ≤ free) : cut.At (xs ++ fitted) b free where
  requested_eq := h.requested_eq
  written_lt := h.written_lt
  written_add_unwritten := h.written_add_unwritten
  full := by
    have := h.full
    rw [Batch.total_append]
    omega

theorem take_stream (h : cut.At fitted b free) (rest : List Batch) (start : ℕ) :
    (Batch.stream (fitted ++ b :: rest) start).take free =
      Batch.stream fitted start ++
        Buffer.written b.sample (start + Batch.total fitted) cut.written := by
  have hlt := h.written_lt
  rw [h.requested_eq] at hlt
  rw [← h.full, Batch.stream_append, ← Batch.length_stream fitted start,
    List.take_length_add_append, Batch.stream,
    List.take_append_of_le_length (by rw [Buffer.length_written]; exact hlt.le),
    Buffer.take_written, Nat.min_eq_right hlt.le]

end Cut.At

theorem Batch.exists_cut_layAll {batches : List Batch} {buffer after : Buffer} {cut : Cut}
    (h : layAll batches buffer = (after, some cut)) :
    ∃ fitted b rest, batches = fitted ++ b :: rest ∧ cut.At fitted b buffer.remaining := by
  induction batches generalizing buffer with
  | nil => cases h
  | cons b rest ih =>
    have hlaid := laid_lay b buffer
    have hcut := lay_snd b buffer
    unfold layAll at h
    split at h
    · next _ k hlay =>
      cases h
      rw [hlay] at hcut
      split at hcut
      · next hlt =>
        cases hcut
        exact ⟨[], b, rest, rfl, rfl, hlt, by dsimp only; omega, by simp; omega⟩
      · cases hcut
    · next middle hlay =>
      rw [hlay] at hlaid
      have hfits := hlaid.cut_eq_none_iff.1 rfl
      obtain ⟨fitted, last, others, hsplit, hat⟩ := ih h
      rw [hlaid.remaining_eq] at hat
      exact ⟨b :: fitted, last, others, by rw [hsplit]; rfl, hat.append hfits⟩

section Drawing

variable {α : Type} [Amount α] {scale speed dark : α} {brightness : Point → α}
  {variants : Point → Variants} {buffer after : Buffer} {cut : Cut}

theorem Stroke.exists_cut_drawAll {strokes : List (Stroke α)} {budget budget' : Budget α}
    (h : drawAll variants strokes budget buffer = .ok (budget', after, some cut)) :
    ∃ fitted b rest,
      (emission variants budget.scale strokes budget.carry).1 = fitted ++ b :: rest ∧
        cut.At fitted b buffer.remaining := by
  induction strokes generalizing budget buffer with
  | nil => cases h
  | cons s rest ih =>
    unfold drawAll at h
    split at h
    · cases h
    · next count granted hgrant =>
      obtain ⟨hcount, hscale⟩ := Budget.grant_eq_ok hgrant
      have hlaid := Batch.laid_layAll (s.batches variants count) buffer
      simp only [emission, ← hcount]
      split at h
      · next _ k hlay =>
        cases h
        obtain ⟨fitted, b, others, hsplit, hat⟩ := Batch.exists_cut_layAll hlay
        refine ⟨fitted, b, others ++ (emission variants budget.scale rest budget'.carry).1, ?_, hat⟩
        rw [hsplit, List.append_assoc, List.cons_append]
      · next middle hlay =>
        rw [hlay] at hlaid
        obtain ⟨fitted, b, others, hsplit, hat⟩ := ih h
        rw [hscale] at hsplit
        rw [hlaid.remaining_eq] at hat
        refine ⟨s.batches variants count ++ fitted, b, others, ?_,
          hat.append (hlaid.cut_eq_none_iff.1 rfl)⟩
        rw [hsplit, List.append_assoc]

namespace Emission

variable (scale speed dark brightness variants) in
def parts : List (Leg α) → (carry : α) → List (List Batch)
  | [], _ => []
  | l :: rest, carry =>
    let (batches, carry) := leg scale speed dark brightness variants l carry
    batches :: parts rest carry

@[simp] theorem flatten_parts (ls : List (Leg α)) (carry : α) :
    (parts scale speed dark brightness variants ls carry).flatten =
      legs scale speed dark brightness variants ls carry := by
  induction ls generalizing carry with
  | nil => rfl
  | cons l rest ih => simp [parts, legs, ih]

@[simp] theorem length_parts (ls : List (Leg α)) (carry : α) :
    (parts scale speed dark brightness variants ls carry).length = ls.length := by
  induction ls generalizing carry with
  | nil => rfl
  | cons l rest ih => simp [parts, ih]

end Emission

theorem drawLegs_whole {legs : List (List (Stroke α))} {budget : Budget α} {drawn drawn' : ℕ}
    (h : drawLegs variants legs budget buffer drawn = .ok (after, drawn', none)) :
    drawn' = drawn + legs.length := by
  induction legs generalizing budget buffer drawn with
  | nil =>
    cases h
    rfl
  | cons strokes rest ih =>
    unfold drawLegs at h
    split at h
    · cases h
    · cases h
    · rw [ih h, List.length_cons]
      omega

/-- A cut falls into one contour: those before it are drawn whole and those behind it skipped. -/
theorem exists_cut_drawLegs {ls : List (Leg α)} {budget : Budget α} {drawn drawn' : ℕ}
    (h : drawLegs variants (ls.map (Leg.strokes speed dark brightness)) budget buffer drawn =
      .ok (after, drawn', some cut)) :
    ∃ k fitted b rest, drawn' = drawn + k ∧ k + 1 + cut.skipped = ls.length ∧
      (Emission.parts budget.scale speed dark brightness variants ls budget.carry)[k]? =
        some (fitted ++ b :: rest) ∧
      cut.At (((Emission.parts budget.scale speed dark brightness variants ls
        budget.carry).take k).flatten ++ fitted) b buffer.remaining := by
  induction ls generalizing budget buffer drawn with
  | nil => cases h
  | cons l others ih =>
    rw [List.map_cons] at h
    unfold drawLegs at h
    simp only [Emission.parts, ← Stroke.emission_strokes]
    split at h
    · cases h
    · next hdraw =>
      cases h
      obtain ⟨fitted, b, rest, hsplit, hat⟩ := Stroke.exists_cut_drawAll hdraw
      exact ⟨0, fitted, b, rest, rfl, by simp; omega, by simp [hsplit], by simpa using hat.skipped _⟩
    · next budget' middle hdraw =>
      obtain ⟨hlaid, hend⟩ := Stroke.laid_drawAll hdraw
      obtain ⟨hscale, hcarry⟩ := hend rfl
      obtain ⟨k, fitted, b, rest, hdrawn, hskipped, hpart, hat⟩ := ih h
      rw [hscale, hcarry] at hpart hat
      rw [hlaid.remaining_eq] at hat
      refine ⟨k + 1, fitted, b, rest, by omega, by simp; omega, by simpa using hpart, ?_⟩
      have hwhole := hat.append (hlaid.cut_eq_none_iff.1 rfl)
      simpa using hwhole

def Plan.parts (plan : Plan α) (speed dark : α) (brightness : Point → α)
    (variants : Point → Variants) (capacity : ℕ) : List (List Batch) :=
  Emission.parts (Amount.div (Amount.ofNat capacity) plan.total) speed dark brightness variants
    plan.legs Amount.zero

theorem Plan.emission_eq_stream {plan : Plan α} {capacity start : ℕ}
    (h : scaleFor plan.total capacity = some scale) :
    plan.emission speed dark brightness variants capacity start =
      Batch.stream (plan.parts speed dark brightness variants capacity).flatten start := by
  unfold scaleFor at h
  split at h
  · next hdrawn => simp [emission, parts, hdrawn]
  · cases h

theorem Plan.emission_eq_nil {plan : Plan α} {capacity start : ℕ}
    (h : scaleFor plan.total capacity = none) :
    plan.emission speed dark brightness variants capacity start = [] := by
  unfold scaleFor at h
  split at h
  · cases h
  · next hblank => simp [emission, hblank]

/-- What a drawing reports of its plan, once there is a scale. -/
theorem Plan.draw_cases {plan : Plan α} {d : Drawing α} {parts : List (List Batch)}
    (h : plan.draw speed dark brightness variants buffer = .ok d)
    (hscale : scaleFor plan.total buffer.remaining = some scale)
    (hparts : plan.parts speed dark brightness variants buffer.remaining = parts) :
    (d.cut = none ∧ d.drawn = plan.legs.length ∧ Batch.total parts.flatten ≤ buffer.remaining) ∨
      ∃ cut fitted b rest, d.cut = some cut ∧ d.drawn + 1 + cut.skipped = plan.legs.length ∧
        parts[d.drawn]? = some (fitted ++ b :: rest) ∧
        cut.At ((parts.take d.drawn).flatten ++ fitted) b buffer.remaining := by
  subst hparts
  have hquotient : scale = Amount.div (Amount.ofNat buffer.remaining) plan.total := by
    unfold scaleFor at hscale
    split at hscale
    · exact (Option.some_inj.1 hscale).symm
    · cases hscale
  simp only [draw, Budget.ofTotal, hscale, Option.map_some] at h
  split at h
  · cases h
  · next after drawn cut hlegs =>
    cases h
    cases cut with
    | none =>
      left
      have hwhole := drawLegs_whole hlegs
      have hfits := (laid_drawLegs hlegs).cut_eq_none_iff.1 rfl
      rw [← List.flatMap_def, Stroke.emission_flatMap, ← Emission.flatten_parts] at hfits
      subst hquotient
      exact ⟨rfl, by simpa using hwhole, hfits⟩
    | some cut =>
      right
      obtain ⟨k, fitted, b, rest, hdrawn, hskipped, hpart, hat⟩ := exists_cut_drawLegs hlegs
      obtain rfl : drawn = k := by omega
      subst hquotient
      exact ⟨cut, fitted, b, rest, rfl, hskipped, hpart, hat⟩

end Drawing

theorem flatten_eq_of_part {β : Type} {parts : List (List β)} {k : ℕ} {xs : List β}
    (h : parts[k]? = some xs) :
    parts.flatten = (parts.take k).flatten ++ (xs ++ (parts.drop (k + 1)).flatten) := by
  obtain ⟨hk, hpart⟩ := List.getElem?_eq_some_iff.1 h
  rw [← hpart, ← List.flatten_cons, ← List.drop_eq_getElem_cons hk, ← List.flatten_append,
    List.take_append_drop]

section Totals

variable {total scale : Float} {n : ℕ}

theorem scaleFor_eq_none_imp (htotal : NotNegative total) (h : scaleFor total n = none) :
    total == 0.0 ∨ total.isFinite = false := by
  unfold scaleFor at h
  split at h
  · cases h
  · next hblank =>
    by_cases hfinite : total.isFinite = true
    · left
      obtain ⟨t, ht⟩ := exists_hasValue htotal hfinite
      have hpos : ¬ 0 < t := fun hpos => hblank (Bool.and_eq_true_iff.2
        ⟨hfinite, decide_eq_true ((Double.hasValue_zero.lt_iff ht).2 hpos)⟩)
      exact (ht.beq_iff Double.hasValue_zero).2 (le_antisymm (not_lt.1 hpos) ht.nonneg)
    · exact .inr (eq_false_of_ne_true hfinite)

theorem scaleFor_eq_some_imp (h : scaleFor total n = some scale) :
    0.0 < total ∧ total.isFinite = true := by
  unfold scaleFor at h
  split at h
  · next hdrawn =>
    obtain ⟨hfinite, hpositive⟩ := Bool.and_eq_true_iff.1 hdrawn
    exact ⟨of_decide_eq_true hpositive, hfinite⟩
  · cases h

theorem not_zero_or_infinite (htotal : NotNegative total)
    (h : 0.0 < total ∧ total.isFinite = true) : ¬ (total == 0.0 ∨ total.isFinite = false) := by
  obtain ⟨t, ht⟩ := exists_hasValue htotal h.2
  have hpos := (Double.hasValue_zero.lt_iff ht).1 h.1
  rintro (hzero | hinfinite)
  · exact hpos.ne' ((ht.beq_iff Double.hasValue_zero).1 hzero)
  · simp [h.2] at hinfinite

end Totals

namespace Report

/-- Nothing demands samples, as where no contour is kept, or the demand is beyond all numbers, and
nothing is drawn. -/
structure Undrawn (r : Report) : Prop where
  demand : r.demand == 0.0 ∨ r.demand.isFinite = false
  drawn_eq : r.drawn = 0
  cut_eq : r.cut = none
  pathSamples_eq : r.pathSamples = 0
  scale_eq : r.scale = 0.0

/-- There is something to draw, and every contour is drawn in all its batches. -/
structure DrawnWhole (r : Report) (parts : List (List Batch)) (before after : Buffer) : Prop where
  demand : 0.0 < r.demand ∧ r.demand.isFinite = true
  drawn_eq : r.drawn = r.kept
  cut_eq : r.cut = none
  pathSamples_eq : r.pathSamples = Batch.total parts.flatten
  path_eq : r.path before after = Batch.stream parts.flatten before.size

/-- A batch of the contour after those drawn whole is cut where the buffer ends. -/
structure DrawnShort (r : Report) (parts : List (List Batch)) (before after : Buffer) : Prop where
  demand : 0.0 < r.demand ∧ r.demand.isFinite = true
  fillSamples_eq : r.fillSamples = 0
  pathSamples_eq : r.pathSamples = before.remaining
  exists_cut : ∃ cut fitted b rest, r.cut = some cut ∧ r.drawn + 1 + cut.skipped = r.kept ∧
    parts[r.drawn]? = some (fitted ++ b :: rest) ∧
    cut.At ((parts.take r.drawn).flatten ++ fitted) b before.remaining ∧
    r.path before after = Batch.stream ((parts.take r.drawn).flatten ++ fitted) before.size ++
      Buffer.written b.sample
        (before.size + Batch.total ((parts.take r.drawn).flatten ++ fitted)) cut.written

theorem DrawnShort.cut_ne_none {r : Report} {parts : List (List Batch)} {before after : Buffer}
    (h : r.DrawnShort parts before after) : r.cut ≠ none := by
  obtain ⟨cut, _, _, _, hcut, -⟩ := h.exists_cut
  simp [hcut]

end Report

namespace ContourStyle

/-- The batches of a frame, those of each contour apart, in drawing order. -/
def parts (style : ContourStyle) (p : Picture) (plan : Plan Float) (capacity : ℕ) :
    List (List Batch) :=
  plan.parts style.speed (clampUnit style.dark) p.ink
    (Projection.variants ⟨p.width, p.height, style.dither⟩) capacity

variable {style : ContourStyle} {p : Picture} {contours : List Contour} {plan : Plan Float}

theorem length_legs [Hypot] (hplan : style.plan p contours = .ok plan) :
    plan.legs.length = (style.keep contours).length := by
  obtain ⟨arranged, harranged, hlegs, -⟩ := plan_eq_ok hplan
  rw [← (DrawingOrder.perm_of_arrange harranged).length_eq, ← Plan.contours_of_legsFrom hlegs,
    List.length_map]

theorem length_parts [Hypot] (hplan : style.plan p contours = .ok plan) (capacity : ℕ) :
    (style.parts p plan capacity).length = (style.keep contours).length :=
  (Emission.length_parts plan.legs Amount.zero).trans (length_legs hplan)

theorem accounted [Hypot] [Hypot.Accurate] {before after : Buffer} {r : Report}
    (h : style.draw p contours before = .ok (r, after)) (hplan : style.plan p contours = .ok plan) :
    r.Undrawn ∨ r.DrawnWhole (style.parts p plan before.remaining) before after ∨
      r.DrawnShort (style.parts p plan before.remaining) before after := by
  obtain ⟨plan', path, hplan', hpath, hlist, hcount⟩ := toList_draw h
  obtain ⟨plan'', d, hplan'', hd, -, hr⟩ := draw_eq_ok h
  cases hplan.symm.trans hplan'
  cases hplan.symm.trans hplan''
  have hpathEq := Filled.path_eq hlist hcount
  have hfilled := (filled_of_draw h).1.accounted
  subst hr
  cases hscale : scaleFor plan.total before.remaining with
  | none =>
    left
    rw [Plan.draw_blank _ plan hscale] at hd
    cases hd
    exact ⟨scaleFor_eq_none_imp (notNegative_total hplan) hscale, rfl, rfl, Nat.sub_self _, rfl⟩
  | some scale =>
    right
    have hdemand := scaleFor_eq_some_imp hscale
    have hemission : style.emission p plan before.remaining before.size =
        Batch.stream (style.parts p plan before.remaining).flatten before.size :=
      Plan.emission_eq_stream hscale
    rw [hemission] at hpath
    rcases Plan.draw_cases hd hscale (rfl : _ = style.parts p plan before.remaining) with
      ⟨hcut, hdrawn, hfits⟩ | ⟨cut, fitted, b, rest, hcut, hskipped, hpart, hat⟩
    · left
      rw [List.take_of_length_le (by rwa [Batch.length_stream])] at hpath
      refine ⟨hdemand, hdrawn.trans (length_legs hplan), hcut, ?_, hpathEq.trans hpath⟩
      rw [hcount, hpath, Batch.length_stream]
    · right
      rw [flatten_eq_of_part hpart, List.append_assoc, List.cons_append, ← List.append_assoc,
        hat.take_stream] at hpath
      have hfull : path.length = before.remaining := by
        rw [hpath, List.length_append, Batch.length_stream, Buffer.length_written, hat.full]
      refine ⟨hdemand, by omega, hcount.trans hfull, cut, fitted, b, rest, hcut,
        hskipped.trans (length_legs hplan), hpart, hat, hpathEq.trans hpath⟩

/-- A report tells how many contours there were and how many of them are long enough, and it accounts
for every batch: none is drawn, or all are, or those before a cut, and never two of these at once. -/
theorem report_accounts [Hypot] [Hypot.Accurate] (style : ContourStyle) (p : Picture)
    (contours : List Contour) (before after : Buffer) (r : Report)
    (h : style.draw p contours before = .ok (r, after)) :
    r.seen = contours.length ∧
      r.kept = contours.countP (fun c => max style.minLength 1 ≤ c.length) ∧
      ∃ plan parts, style.plan p contours = .ok plan ∧ r.demand = plan.total ∧
        parts = style.parts p plan before.remaining ∧ parts.length = r.kept ∧
        (r.Undrawn ∨ r.DrawnWhole parts before after ∨ r.DrawnShort parts before after) ∧
        ¬ (r.Undrawn ∧ r.DrawnWhole parts before after) ∧
        ¬ (r.Undrawn ∧ r.DrawnShort parts before after) ∧
        ¬ (r.DrawnWhole parts before after ∧ r.DrawnShort parts before after) := by
  obtain ⟨plan, d, hplan, -, -, hr⟩ := draw_eq_ok h
  have hcases := accounted h hplan
  subst hr
  refine ⟨rfl, by rw [List.countP_eq_length_filter]; rfl, plan,
    style.parts p plan before.remaining, hplan, rfl, rfl, length_parts hplan _, hcases, ?_, ?_, ?_⟩
  · rintro ⟨hundrawn, hwhole⟩
    exact not_zero_or_infinite (notNegative_total hplan) hwhole.demand hundrawn.demand
  · rintro ⟨hundrawn, hshort⟩
    exact hshort.cut_ne_none hundrawn.cut_eq
  · rintro ⟨hwhole, hshort⟩
    exact hshort.cut_ne_none hwhole.cut_eq

open scoped Platform in
theorem report_accounts_cut :
    ∃ r after plan, ({ speed := 5e-324, minLength := 1 } : ContourStyle).draw (.ofPixel 0)
        [[⟨0, 0⟩], [⟨1, 0⟩], [⟨0, 0⟩]] (.holding #[⟨9, 9, 9⟩] 3) = .ok (r, after) ∧
      (r.drawn = 1 ∧ r.kept = 3) ∧
      r.DrawnShort (({ speed := 5e-324, minLength := 1 } : ContourStyle).parts (.ofPixel 0) plan 3)
        (.holding #[⟨9, 9, 9⟩] 3) after := by
  have hok : (match ({ speed := 5e-324, minLength := 1 } : ContourStyle).draw (.ofPixel 0)
      [[⟨0, 0⟩], [⟨1, 0⟩], [⟨0, 0⟩]] (.holding #[⟨9, 9, 9⟩] 3) with
      | .ok (r, _) => decide (r.isCut ∧ r.drawn = 1 ∧ r.kept = 3)
      | .error _ => false) = true := by decide +kernel
  split at hok
  · next r after h =>
    obtain ⟨-, -, plan, _, -, -, rfl, -, hcases, -⟩ := report_accounts _ _ _ _ after r h
    obtain ⟨hcut, hcounts⟩ := of_decide_eq_true hok
    refine ⟨r, after, plan, h, hcounts, ?_⟩
    rcases hcases with hundrawn | hwhole | hshort
    · simp [Report.isCut, hundrawn.cut_eq] at hcut
    · simp [Report.isCut, hwhole.cut_eq] at hcut
    · exact hshort
  · cases hok

end ContourStyle

end VectorDisplay
