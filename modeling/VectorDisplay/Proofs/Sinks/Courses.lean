import Mathlib.Data.List.Forall2
import VectorDisplay.Proofs.Folder
import VectorDisplay.Proofs.Session.Watching
/-!
Sinks that follow their courses. A `Course` says what holds of a sink once it has taken some frames,
and carries the proof that taking one more leads on, as long as others leave its files alone. Main
statement: sinks in one list, whose files are apart, all follow their courses together.
-/

set_option autoImplicit false

namespace VectorDisplay

/-- What becomes of a sink that takes up to `n` frames. -/
structure Course (σ : Type) [Receives σ] (n : Nat) where
  own : List Path
  held : Bool
  took : List Frame → σ → Folder → Prop
  left : List Frame → σ → Folder → Prop
  holdsFrames_eq {frames : List Frame} {t : σ} {f : Folder} :
    took frames t f → Receives.holdsFrames t = held
  send {frames : List Frame} {t : σ} {f : Folder} : took frames t f → frames.length < n →
    ∀ frame, ∃ t' g log, Receives.send t frame f = .ok ⟨.ok (), (t', g), log⟩ ∧
      took (frames ++ [frame]) t' g ∧ f.Extends g own
  stop {frames : List Frame} {t : σ} {f : Folder} : took frames t f →
    ∃ t' g log, Receives.stop t f = ⟨.ok (), (t', g), log⟩ ∧ left frames t' g ∧ f.Extends g own
  took_of_extends {frames : List Frame} {t : σ} {f g : Folder} {changed : List Path} :
    took frames t f → f.Extends g changed → own.Disjoint changed → took frames t g
  left_of_extends {frames : List Frame} {t : σ} {f g : Folder} {changed : List Path} :
    left frames t f → f.Extends g changed → own.Disjoint changed → left frames t g

namespace Course

variable {σ : Type} [Receives σ] {n : Nat}

def Starts (begun : Folder) (c : Course σ n) (s : σ) : Prop :=
  ∀ {f : Folder} {changed : List Path}, begun.Extends f changed → c.own.Disjoint changed →
    ∃ t g log, Receives.start s f = ⟨.ok (), (t, g), log⟩ ∧ c.took [] t g ∧ f.Extends g c.own

def Apart (c d : Course σ n) : Prop := c.own.Disjoint d.own

theorem Apart.symm {c d : Course σ n} (h : c.Apart d) : d.Apart c := fun _ hd hc => h hc hd

def ownAll (courses : List (Course σ n)) : List Path := courses.flatMap own

def TookAll (courses : List (Course σ n)) (frames : List Frame) (sinks : List σ) (f : Folder) :
    Prop :=
  List.Forall₂ (fun c t => c.took frames t f) courses sinks

def LeftAll (courses : List (Course σ n)) (frames : List Frame) (sinks : List σ) (f : Folder) :
    Prop :=
  List.Forall₂ (fun c t => c.left frames t f) courses sinks

variable {courses : List (Course σ n)} {c : Course σ n} {frames : List Frame} {sinks : List σ}
  {begun f g : Folder} {changed : List Path}

theorem disjoint_ownAll (h : ∀ d ∈ courses, c.Apart d) : c.own.Disjoint (ownAll courses) := by
  intro p hp hall
  obtain ⟨d, hd, hpd⟩ := List.mem_flatMap.1 hall
  exact h d hd hp hpd

theorem ownAll_cons (c : Course σ n) (courses : List (Course σ n)) :
    ownAll (c :: courses) = c.own ++ ownAll courses := rfl

theorem any_holdsFrames (h : TookAll courses frames sinks f) :
    sinks.any Receives.holdsFrames = courses.any held := by
  induction h with
  | nil => rfl
  | cons htook _ ih => rw [List.any_cons, List.any_cons, ih, holdsFrames_eq _ htook]

theorem startAll (hstarts : List.Forall₂ (Starts begun) courses sinks)
    (hapart : courses.Pairwise Apart) (hbegun : begun.Extends f changed)
    (hchanged : (ownAll courses).Disjoint changed) :
    ∃ sinks' g log, Sink.startAll sinks f = ⟨.ok (), (sinks', g), log⟩ ∧
      TookAll courses [] sinks' g ∧ f.Extends g (ownAll courses) := by
  unfold Sink.startAll
  induction hstarts generalizing f changed with
  | nil => exact ⟨[], f, [], rfl, .nil, .refl f _⟩
  | @cons c s courses sinks hstart _ ih =>
    obtain ⟨hfirst, hrest⟩ := List.pairwise_cons.1 hapart
    rw [ownAll_cons, List.disjoint_append_left] at hchanged
    obtain ⟨t, g, log, hs, htook, hfg⟩ := hstart hbegun hchanged.1
    have hbegun' : begun.Extends g (changed ++ c.own) :=
      (hbegun.mono (List.subset_append_left _ _)).trans (hfg.mono (List.subset_append_right _ _))
    have hown := disjoint_ownAll hfirst
    obtain ⟨sinks', g', log', hsinks, htooks, hgg⟩ :=
      ih hrest hbegun' (List.disjoint_append_right.2 ⟨hchanged.2, fun _ hall hc => hown hc hall⟩)
    refine ⟨t :: sinks', g', log ++ log', ?_, .cons (c.took_of_extends htook hgg hown) htooks, ?_⟩
    · simp only [Sink.each, hs, hsinks]
    · exact (hfg.mono (List.subset_append_left _ _)).trans
        (hgg.mono (List.subset_append_right _ _))

theorem tookAll_of_extends (htook : TookAll courses frames sinks f) (hfg : f.Extends g changed)
    (hdisjoint : ∀ c ∈ courses, c.own.Disjoint changed) : TookAll courses frames sinks g := by
  induction htook with
  | nil => exact .nil
  | cons ht _ ih =>
    rw [List.forall_mem_cons] at hdisjoint
    exact .cons (took_of_extends _ ht hfg hdisjoint.1) (ih hdisjoint.2)

theorem sendAll (htook : TookAll courses frames sinks f) (hapart : courses.Pairwise Apart)
    (hroom : frames.length < n) (frame : Frame) :
    ∃ sinks' g log, Sink.sendAll frame sinks f = .ok ⟨.ok (), (sinks', g), log⟩ ∧
      TookAll courses (frames ++ [frame]) sinks' g ∧ f.Extends g (ownAll courses) := by
  induction courses generalizing sinks f with
  | nil =>
    cases htook
    exact ⟨[], f, [], rfl, .nil, .refl f _⟩
  | cons c courses ih =>
    obtain _ | ⟨ht, hts⟩ := htook
    obtain ⟨hfirst, hrest⟩ := List.pairwise_cons.1 hapart
    obtain ⟨t', g, log, hsend, ht', hfg⟩ := c.send ht hroom frame
    have hts' := tookAll_of_extends hts hfg fun d hd => (hfirst d hd).symm
    obtain ⟨sinks', g', log', hsendAll, htooks, hgg⟩ := ih hts' hrest
    refine ⟨t' :: sinks', g', log ++ log', ?_,
      .cons (c.took_of_extends ht' hgg (disjoint_ownAll hfirst)) htooks, ?_⟩
    · simp only [Sink.sendAll, hsend, hsendAll, Except.bind]
    · exact (hfg.mono (List.subset_append_left _ _)).trans
        (hgg.mono (List.subset_append_right _ _))

theorem stopAll (htook : TookAll courses frames sinks f) (hapart : courses.Pairwise Apart) :
    ∃ sinks' g log, Sink.stopAll sinks f = ⟨.ok (), (sinks', g), log⟩ ∧
      LeftAll courses frames sinks' g ∧ f.Extends g (ownAll courses) := by
  unfold Sink.stopAll
  induction courses generalizing sinks f with
  | nil =>
    cases htook
    exact ⟨[], f, [], rfl, .nil, .refl f _⟩
  | cons c courses ih =>
    obtain _ | ⟨ht, hts⟩ := htook
    obtain ⟨hfirst, hrest⟩ := List.pairwise_cons.1 hapart
    obtain ⟨t', g, log, hstop, ht', hfg⟩ := c.stop ht
    have hts' := tookAll_of_extends hts hfg fun d hd => (hfirst d hd).symm
    obtain ⟨sinks', g', log', hstopAll, hlefts, hgg⟩ := ih hts' hrest
    refine ⟨t' :: sinks', g', log ++ log', ?_,
      .cons (c.left_of_extends ht' hgg (disjoint_ownAll hfirst)) hlefts, ?_⟩
    · simp only [Sink.each, hstop, hstopAll]
    · exact (hfg.mono (List.subset_append_left _ _)).trans
        (hgg.mono (List.subset_append_right _ _))

end Course

theorem respects_id {σ : Type} [Receives σ] : Respects (id : σ → σ) where
  start_eq _ _ := rfl
  send_eq s frame f := by
    simp only [id]
    cases Receives.send s frame f <;> rfl
  stop_eq _ _ := rfl
  holdsFrames_eq _ := rfl

namespace Course

variable {σ τ : Type} [Receives σ] [Receives τ] {n : Nat} {e : σ → τ}

def map (h : Respects e) (c : Course σ n) : Course τ n where
  own := c.own
  held := c.held
  took frames t f := ∃ s, t = e s ∧ c.took frames s f
  left frames t f := ∃ s, t = e s ∧ c.left frames s f
  holdsFrames_eq := by
    rintro frames _ f ⟨s, rfl, htook⟩
    rw [h.holdsFrames_eq, c.holdsFrames_eq htook]
  send := by
    rintro frames _ f ⟨s, rfl, htook⟩ hroom frame
    obtain ⟨s', g, log, hsend, htook', hfg⟩ := c.send htook hroom frame
    refine ⟨e s', g, log, ?_, ⟨s', rfl, htook'⟩, hfg⟩
    rw [h.send_eq, hsend]
    rfl
  stop := by
    rintro frames _ f ⟨s, rfl, htook⟩
    obtain ⟨s', g, log, hstop, hleft, hfg⟩ := c.stop htook
    refine ⟨e s', g, log, ?_, ⟨s', rfl, hleft⟩, hfg⟩
    rw [h.stop_eq, hstop]
    rfl
  took_of_extends := by
    rintro frames _ f g changed ⟨s, rfl, htook⟩ hfg hdisjoint
    exact ⟨s, rfl, c.took_of_extends htook hfg hdisjoint⟩
  left_of_extends := by
    rintro frames _ f g changed ⟨s, rfl, hleft⟩ hfg hdisjoint
    exact ⟨s, rfl, c.left_of_extends hleft hfg hdisjoint⟩

theorem starts_map (h : Respects e) {c : Course σ n} {begun : Folder} {s : σ}
    (hstarts : c.Starts begun s) : (c.map h).Starts begun (e s) := by
  intro f changed hbegun hdisjoint
  obtain ⟨t, g, log, hstart, htook, hfg⟩ := hstarts hbegun hdisjoint
  refine ⟨e t, g, log, ?_, ⟨t, rfl, htook⟩, hfg⟩
  rw [h.start_eq, hstart]
  rfl

section Watch

variable (c : Course σ n)

/-- The course of a sink under watch: it is started once, sent each frame once and in order, and
stopped once. -/
def watched : Course (Watched σ) n where
  own := c.own
  held := c.held
  took frames w f := w.calls = .start :: frames.map .send ∧ c.took frames w.sink f
  left frames w f := w.calls = .start :: frames.map .send ++ [.stop] ∧ c.left frames w.sink f
  holdsFrames_eq h := c.holdsFrames_eq h.2
  send := by
    rintro frames w f ⟨hcalls, htook⟩ hroom frame
    obtain ⟨t, g, log, hsend, htook', hfg⟩ := c.send htook hroom frame
    refine ⟨w.called (.send frame) t, g, log, ?_, ⟨by simp [Watched.called, hcalls], htook'⟩, hfg⟩
    rw [Watched.send_eq, hsend]
    rfl
  stop := by
    rintro frames w f ⟨hcalls, htook⟩
    obtain ⟨t, g, log, hstop, hleft, hfg⟩ := c.stop htook
    refine ⟨w.called .stop t, g, log, ?_, ⟨by simp [Watched.called, hcalls], hleft⟩, hfg⟩
    rw [Watched.stop_eq, hstop]
    rfl
  took_of_extends h hfg hdisjoint := ⟨h.1, c.took_of_extends h.2 hfg hdisjoint⟩
  left_of_extends h hfg hdisjoint := ⟨h.1, c.left_of_extends h.2 hfg hdisjoint⟩

variable {c} in
theorem starts_watched {begun : Folder} {s : σ} (hstarts : c.Starts begun s) :
    c.watched.Starts begun (.ofSink s) := by
  intro f changed hbegun hdisjoint
  obtain ⟨t, g, log, hstart, htook, hfg⟩ := hstarts hbegun hdisjoint
  refine ⟨⟨t, [.start]⟩, g, log, ?_, ⟨rfl, htook⟩, hfg⟩
  rw [Watched.start_eq]
  dsimp only [Watched.ofSink]
  rw [hstart]
  rfl

end Watch

end Course

end VectorDisplay
