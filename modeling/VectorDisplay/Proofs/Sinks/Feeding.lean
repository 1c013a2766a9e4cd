import VectorDisplay.Proofs.Sinks.Courses
import VectorDisplay.Proofs.Sinks.Separate
/-!
Many sinks that are fed the same frames. Main statement: each of them answers every frame and ends
as it does when it is fed alone, whatever the others answer, and the answer of all is the first
failure in the order of their list. The step is one frame for all, and the run follows from it by
induction.
-/

set_option autoImplicit false

namespace VectorDisplay

/-- What frames that were sent one after the other come to: an answer for each, and what is left. -/
structure Fed (τ : Type) where
  results : List (Except Error Unit)
  state : τ
  folder : Folder

def Fed.map {τ υ : Type} (e : τ → υ) (r : Fed τ) : Fed υ := ⟨r.results, e r.state, r.folder⟩

theorem Watched.calls_send {σ : Type} [Receives σ] {w : Watched σ} {frame : Frame} {f : Folder}
    {r : SinkReply (Watched σ)} (h : Receives.send w frame f = .ok r) :
    r.state.1.calls = w.calls ++ [.send frame] := by
  rw [Watched.send_eq] at h
  cases hown : Receives.send w.sink frame f with
  | error fault =>
    rw [hown] at h
    cases h
  | ok own =>
    rw [hown] at h
    cases h
    rfl

namespace Sink

section Feeding

variable {τ : Type}

def feed (send : τ → Frame → Folder → Checked (SinkReply τ)) :
    List Frame → τ → Folder → Checked (Fed τ)
  | [], t, folder => .ok ⟨[], t, folder⟩
  | frame :: rest, t, folder =>
    match send t frame folder with
    | .error fault => .error fault
    | .ok first =>
      match feed send rest first.state.1 first.state.2 with
      | .error fault => .error fault
      | .ok others => .ok ⟨first.result :: others.results, others.state, others.folder⟩

variable {send : τ → Frame → Folder → Checked (SinkReply τ)} {frame : Frame}
  {rest frames : List Frame} {t : τ} {f : Folder} {fed : Fed τ}

theorem feed_cons_eq_ok_iff : feed send (frame :: rest) t f = .ok fed ↔
    ∃ first others, send t frame f = .ok first ∧
      feed send rest first.state.1 first.state.2 = .ok others ∧
      fed = ⟨first.result :: others.results, others.state, others.folder⟩ := by
  rw [feed]
  cases hfirst : send t frame f with
  | error fault => simp
  | ok first =>
    cases hothers : feed send rest first.state.1 first.state.2 with
    | error fault => simp [hothers]
    | ok others => simp [hothers, eq_comm]

theorem length_feed (h : feed send frames t f = .ok fed) : fed.results.length = frames.length := by
  induction frames generalizing t f fed with
  | nil =>
    cases h
    rfl
  | cons frame rest ih =>
    obtain ⟨first, others, -, hothers, rfl⟩ := feed_cons_eq_ok_iff.1 h
    exact congrArg (· + 1) (ih hothers)

end Feeding

variable {σ : Type} [Receives σ]

def feedOne (frames : List Frame) (s : σ) (folder : Folder) : Checked (Fed σ) :=
  feed Receives.send frames s folder

/-- Sends frame after frame to many sinks. -/
def feedAll (frames : List Frame) (sinks : List σ) (folder : Folder) : Checked (Fed (List σ)) :=
  feed (fun sinks frame folder => sendAll frame sinks folder) frames sinks folder

/-- The answer of many for one: there is a failure if one of them has failed, and then it is the
first of the list. -/
structure Speaks (joint : Except Error Unit) (own : List (Except Error Unit)) : Prop where
  ok_iff : joint = .ok () ↔ ∀ r ∈ own, r = .ok ()
  error_iff {error : Error} : joint = .error error ↔
    ∃ before after, own = before ++ .error error :: after ∧ ∀ r ∈ before, r = .ok ()

theorem speaks_nil : Speaks (.ok ()) [] := ⟨by simp, by simp⟩

theorem Speaks.cons {joint : Except Error Unit} {own : List (Except Error Unit)}
    (h : Speaks joint own) (first : Except Error Unit) :
    Speaks (first.bind fun _ => joint) (first :: own) := by
  cases first with
  | ok _ =>
    refine ⟨by simpa [Except.bind] using h.ok_iff, fun {error} => ?_⟩
    rw [show Except.bind (.ok ()) (fun _ => joint) = joint from rfl, h.error_iff]
    constructor
    · rintro ⟨before, after, rfl, hbefore⟩
      exact ⟨.ok () :: before, after, rfl, by simpa using hbefore⟩
    · rintro ⟨before, after, hown, hbefore⟩
      cases before with
      | nil => cases hown
      | cons r before =>
        obtain ⟨-, rfl⟩ := List.cons.inj hown
        exact ⟨before, after, rfl, fun r hr => hbefore r (List.mem_cons_of_mem _ hr)⟩
  | error e =>
    refine ⟨by simp [Except.bind], fun {error} => ?_⟩
    constructor
    · intro herror
      cases herror
      exact ⟨[], own, rfl, by simp⟩
    · rintro ⟨before, after, hown, hbefore⟩
      cases before with
      | nil =>
        cases hown
        rfl
      | cons r before =>
        obtain ⟨rfl, -⟩ := List.cons.inj hown
        cases hbefore _ List.mem_cons_self

theorem sendAll_cons_eq_ok_iff {frame : Frame} {s : σ} {sinks : List σ} {f : Folder}
    {joint : SinkReply (List σ)} : sendAll frame (s :: sinks) f = .ok joint ↔
      ∃ first others, Receives.send s frame f = .ok first ∧
        sendAll frame sinks first.state.2 = .ok others ∧
        joint = ⟨first.result.bind fun _ => others.result,
          (first.state.1 :: others.state.1, others.state.2), first.log ++ others.log⟩ := by
  rw [sendAll]
  cases hfirst : Receives.send s frame f with
  | error fault => simp
  | ok first =>
    cases hothers : sendAll frame sinks first.state.2 with
    | error fault => simp [hothers]
    | ok others => simp [hothers, eq_comm]

theorem map_sendAll {α : Type} {before after : σ → α} {frame : Frame}
    (hstep : ∀ {s f r}, Receives.send s frame f = .ok r → after r.state.1 = before s)
    {sinks : List σ} {f : Folder} {joint : SinkReply (List σ)}
    (h : sendAll frame sinks f = .ok joint) : joint.state.1.map after = sinks.map before := by
  induction sinks generalizing f joint with
  | nil =>
    cases h
    rfl
  | cons s rest ih =>
    obtain ⟨first, others, hfirst, hothers, rfl⟩ := sendAll_cons_eq_ok_iff.1 h
    exact congrArg₂ List.cons (hstep hfirst) (ih hothers)

section Watch

theorem feedAll_map {ρ : Type} [Receives ρ] {e : ρ → σ} (he : Respects e) (frames : List Frame)
    (sinks : List ρ) (f : Folder) :
    feedAll frames (sinks.map e) f = (feedAll frames sinks f).map (Fed.map (List.map e)) := by
  unfold feedAll
  induction frames generalizing sinks f with
  | nil => rfl
  | cons frame rest ih =>
    simp only [feed, sendAll_map he]
    cases sendAll frame sinks f with
    | error fault => rfl
    | ok first =>
      simp only [Except.map, SinkReply.map, ih]
      cases feed (fun sinks frame folder => sendAll frame sinks folder) rest first.state.1
        first.state.2 <;> rfl

theorem calls_feedAll {frames : List Frame} {sinks : List (Watched σ)} {f : Folder}
    {joint : Fed (List (Watched σ))} (h : feedAll frames sinks f = .ok joint) :
    joint.state.map (·.calls) = sinks.map fun w => w.calls ++ frames.map .send := by
  unfold feedAll at h
  induction frames generalizing sinks f joint with
  | nil =>
    cases h
    simp
  | cons frame rest ih =>
    obtain ⟨first, others, hfirst, hothers, rfl⟩ := feed_cons_eq_ok_iff.1 h
    have hnow := map_sendAll Watched.calls_send hfirst
    calc others.state.map (·.calls)
        = first.state.1.map fun w => w.calls ++ rest.map .send := ih hothers
      _ = (first.state.1.map (·.calls)).map (· ++ rest.map .send) := by simp
      _ = sinks.map fun w => w.calls ++ (frame :: rest).map .send := by simp [hnow]

theorem exists_watched {frames : List Frame} {sinks : List σ} {f : Folder} {joint : Fed (List σ)}
    (h : feedAll frames sinks f = .ok joint) :
    ∃ watched, feedAll frames (sinks.map Watched.ofSink) f = .ok watched ∧
      watched.map (List.map Watched.sink) = joint ∧
      ∀ w ∈ watched.state, w.calls = frames.map .send := by
  have hforget : (sinks.map Watched.ofSink).map Watched.sink = sinks := by
    simp [Watched.ofSink, Function.comp_def]
  rw [← hforget, feedAll_map Watched.respects_sink] at h
  cases hwatched : feedAll frames (sinks.map Watched.ofSink) f with
  | error fault =>
    rw [hwatched] at h
    cases h
  | ok watched =>
    rw [hwatched] at h
    refine ⟨watched, rfl, Except.ok.inj h, fun w hw => ?_⟩
    have hcalls := List.mem_map_of_mem (f := fun w : Watched σ => w.calls) hw
    rw [calls_feedAll hwatched] at hcalls
    obtain ⟨v, hv, hw⟩ := List.mem_map.1 hcalls
    obtain ⟨s, -, rfl⟩ := List.mem_map.1 hv
    exact hw.symm

end Watch

section Apart

/-- What a sink makes of a frame, the folder aside. -/
structure Reaction (σ : Type) where
  result : Except Error Unit
  state : σ
  log : Log

def Reacts (frame : Frame) (folder : Folder) (s : σ) (r : Reaction σ) : Prop :=
  ∃ g, Receives.send s frame folder = .ok ⟨r.result, (r.state, g), r.log⟩

structure SentApart (frame : Frame) (folder : Folder) (sinks : List σ) (joint : SinkReply (List σ))
    (own : List (Reaction σ)) : Prop where
  reacts : List.Forall₂ (Reacts frame folder) sinks own
  speaks : Speaks joint.result (own.map (·.result))
  state_eq : joint.state.1 = own.map (·.state)
  log_eq : joint.log = own.flatMap (·.log)

structure Reactions (σ : Type) where
  results : List (Except Error Unit)
  state : σ

def ReactsTo (frames : List Frame) (folder : Folder) (s : σ) (r : Reactions σ) : Prop :=
  ∃ g, feedOne frames s folder = .ok ⟨r.results, r.state, g⟩

/-- Frames that were sent to all sinks, beside what each of them makes of them alone. -/
structure FedApart (frames : List Frame) (folder : Folder) (sinks : List σ) (joint : Fed (List σ))
    (own : List (Reactions σ)) : Prop where
  reacts : List.Forall₂ (ReactsTo frames folder) sinks own
  length_eq : joint.results.length = frames.length
  lengths_eq : ∀ r ∈ own, r.results.length = frames.length
  speaks {i : Nat} {answer : Except Error Unit} : joint.results[i]? = some answer →
    Speaks answer (own.filterMap (·.results[i]?))
  state_eq : joint.state = own.map (·.state)

variable {frame : Frame} {frames before : List Frame} {sinks : List σ} {s : σ} {i : Nat}
  {f g : Folder}

theorem length_of_reactsTo {own : List (Reactions σ)}
    (h : List.Forall₂ (ReactsTo frames f) sinks own) :
    ∀ r ∈ own, r.results.length = frames.length := by
  induction h with
  | nil => simp
  | cons hreacts _ ih =>
    obtain ⟨g, hfeed⟩ := hreacts
    exact List.forall_mem_cons.2 ⟨length_feed hfeed, ih⟩

theorem FedApart.exists_reactsTo {joint : Fed (List σ)} {own : List (Reactions σ)}
    (h : FedApart frames f sinks joint own) (hs : sinks[i]? = some s) :
    ∃ r, ReactsTo frames f s r ∧ joint.state[i]? = some r.state := by
  obtain ⟨hi, rfl⟩ := List.getElem?_eq_some_iff.1 hs
  obtain ⟨hlength, hreacts⟩ := List.forall₂_iff_get.1 h.reacts
  refine ⟨own[i], hreacts i hi (hlength ▸ hi), ?_⟩
  rw [h.state_eq, List.getElem?_map, List.getElem?_eq_getElem]
  rfl

variable [Separate σ]

theorem Reacts.elsewhere {frame : Frame} {f : Folder} {s : σ} {r : Reaction σ}
    (h : Reacts frame f s r) (g : Folder) : Reacts frame g s r := by
  obtain ⟨f', hsend⟩ := h
  obtain ⟨g', hsend', -⟩ := Separate.send_elsewhere hsend g
  exact ⟨g', hsend'⟩

theorem exists_sentApart {joint : SinkReply (List σ)} (h : sendAll frame sinks f = .ok joint) :
    ∃ own, SentApart frame f sinks joint own := by
  induction sinks generalizing f joint with
  | nil =>
    cases h
    exact ⟨[], .nil, speaks_nil, rfl, rfl⟩
  | cons s rest ih =>
    obtain ⟨first, others, hfirst, hothers, rfl⟩ := sendAll_cons_eq_ok_iff.1 h
    obtain ⟨own, hown⟩ := ih hothers
    refine ⟨⟨first.result, first.state.1, first.log⟩ :: own, ?_, hown.speaks.cons first.result,
      ?_, ?_⟩
    · exact .cons ⟨_, hfirst⟩ (hown.reacts.imp fun _ _ hreacts => hreacts.elsewhere f)
    · exact congrArg (first.state.1 :: ·) hown.state_eq
    · exact congrArg (first.log ++ ·) hown.log_eq

theorem exists_sendAll (h : ∀ s ∈ sinks, ∃ own, Receives.send s frame f = .ok own) :
    ∃ joint, sendAll frame sinks f = .ok joint := by
  induction sinks generalizing f with
  | nil => exact ⟨_, rfl⟩
  | cons s rest ih =>
    rw [List.forall_mem_cons] at h
    obtain ⟨first, hfirst⟩ := h.1
    obtain ⟨others, hothers⟩ := @ih first.state.2 fun t ht => by
      obtain ⟨own, hown⟩ := h.2 t ht
      obtain ⟨_, hown', -⟩ := Separate.send_elsewhere hown first.state.2
      exact ⟨_, hown'⟩
    exact ⟨_, sendAll_cons_eq_ok_iff.2 ⟨first, others, hfirst, hothers, rfl⟩⟩

theorem extends_sendAll {joint : SinkReply (List σ)} (h : sendAll frame sinks f = .ok joint) :
    f.Extends joint.state.2 (sinks.flatMap Separate.files) := by
  induction sinks generalizing f joint with
  | nil =>
    cases h
    exact .refl f _
  | cons s rest ih =>
    obtain ⟨first, others, hfirst, hothers, rfl⟩ := sendAll_cons_eq_ok_iff.1 h
    exact ((Separate.extends_send hfirst).mono (List.subset_append_left _ _)).trans
      ((ih hothers).mono (List.subset_append_right _ _))

theorem files_sendAll {joint : SinkReply (List σ)} (h : sendAll frame sinks f = .ok joint) :
    joint.state.1.map Separate.files = sinks.map Separate.files := map_sendAll Separate.files_send h

theorem flatMap_files_sendAll {joint : SinkReply (List σ)} (h : sendAll frame sinks f = .ok joint) :
    joint.state.1.flatMap Separate.files = sinks.flatMap Separate.files := by
  rw [List.flatMap_def, files_sendAll h, ← List.flatMap_def]

/-- No other sink of the list writes to these files. -/
def Alone (sinks : List σ) (i : Nat) (paths : List Path) : Prop :=
  ∀ others ∈ (sinks.map Separate.files).eraseIdx i, paths.Disjoint others

theorem Alone.sendAll {paths : List Path} (halone : Alone sinks i paths)
    {joint : SinkReply (List σ)} (h : Sink.sendAll frame sinks f = .ok joint) :
    Alone joint.state.1 i paths := by
  unfold Alone
  rwa [files_sendAll h]

theorem Alone.disjoint_flatMap {paths : List Path} (halone : Alone (s :: sinks) 0 paths) :
    paths.Disjoint (sinks.flatMap Separate.files) := by
  intro p hp hall
  obtain ⟨t, ht, hpt⟩ := List.mem_flatMap.1 hall
  exact halone (Separate.files t) (List.mem_map_of_mem ht) hp hpt

theorem alone_succ {t : σ} {paths : List Path} : Alone (t :: sinks) (i + 1) paths ↔
    paths.Disjoint (Separate.files t) ∧ Alone sinks i paths := by
  simp [Alone]

theorem exists_send_of_sendAll {joint : SinkReply (List σ)} (h : sendAll frame sinks f = .ok joint)
    (hs : sinks[i]? = some s) :
    ∃ r, Receives.send s frame f = .ok r ∧ joint.state.1[i]? = some r.state.1 ∧
      (Alone sinks i (Separate.files s) → r.state.2.AgreeOn joint.state.2 (Separate.files s)) := by
  induction sinks generalizing i f joint with
  | nil => cases hs
  | cons t rest ih =>
    obtain ⟨first, others, hfirst, hothers, rfl⟩ := sendAll_cons_eq_ok_iff.1 h
    cases i with
    | zero =>
      obtain rfl : t = s := Option.some.inj hs
      exact ⟨first, hfirst, rfl, fun halone =>
        (extends_sendAll hothers).agreeOn halone.disjoint_flatMap⟩
    | succ i =>
      obtain ⟨r, hsend, hstate, hagree⟩ := ih hothers hs
      obtain ⟨f', hsend', hsame⟩ := Separate.send_elsewhere hsend f
      refine ⟨_, hsend', hstate, fun halone => ?_⟩
      obtain ⟨hdisjoint, halone⟩ := alone_succ.1 halone
      have hbefore := ((Separate.extends_send hfirst).agreeOn hdisjoint).symm
      exact (hsame hbefore).symm.trans (hagree halone)

theorem exists_send_of_mem {joint : SinkReply (List σ)} (h : sendAll frame sinks f = .ok joint)
    {t : σ} (ht : t ∈ joint.state.1) :
    ∃ s ∈ sinks, ∃ r, Receives.send s frame f = .ok r ∧ r.state.1 = t := by
  obtain ⟨i, hi⟩ := List.getElem?_of_mem ht
  have hlength : joint.state.1.length = sinks.length := by
    simpa using congrArg List.length (files_sendAll h)
  have hless : i < sinks.length := hlength ▸ (List.getElem?_eq_some_iff.1 hi).1
  obtain ⟨r, hsend, hstate, -⟩ := exists_send_of_sendAll h (List.getElem?_eq_getElem hless)
  exact ⟨sinks[i], List.getElem_mem hless, r, hsend, Option.some.inj (hstate.symm.trans hi)⟩

theorem took_sendAll {n : Nat} (c : Course σ n) {joint : SinkReply (List σ)}
    (h : sendAll frame sinks f = .ok joint) (hs : sinks[i]? = some s) (halone : Alone sinks i c.own)
    (htook : c.took frames s f) (hroom : frames.length < n) :
    ∃ t, joint.state.1[i]? = some t ∧ c.took (frames ++ [frame]) t joint.state.2 := by
  induction sinks generalizing i f joint with
  | nil => cases hs
  | cons t rest ih =>
    obtain ⟨first, others, hfirst, hothers, rfl⟩ := sendAll_cons_eq_ok_iff.1 h
    cases i with
    | zero =>
      obtain rfl : t = s := Option.some.inj hs
      obtain ⟨t', g, log, hsend, htook', -⟩ := c.send htook hroom frame
      obtain rfl := Except.ok.inj (hsend.symm.trans hfirst)
      have hextends := extends_sendAll hothers
      exact ⟨t', rfl, c.took_of_extends htook' hextends halone.disjoint_flatMap⟩
    | succ i =>
      obtain ⟨hdisjoint, halone⟩ := alone_succ.1 halone
      have hextends := Separate.extends_send hfirst
      obtain ⟨t', hstate, htook'⟩ :=
        ih hothers hs halone (c.took_of_extends htook hextends hdisjoint)
      exact ⟨t', hstate, htook'⟩

theorem feedOne_elsewhere {own : Fed σ} (h : feedOne frames s f = .ok own) (g : Folder) :
    ∃ h, feedOne frames s g = .ok ⟨own.results, own.state, h⟩ ∧
      (f.AgreeOn g (Separate.files s) → own.folder.AgreeOn h (Separate.files s)) := by
  unfold feedOne at h ⊢
  induction frames generalizing s f g own with
  | nil =>
    cases h
    exact ⟨g, rfl, id⟩
  | cons frame rest ih =>
    obtain ⟨first, others, hfirst, hothers, rfl⟩ := feed_cons_eq_ok_iff.1 h
    obtain ⟨g', hfirst', hagree⟩ := Separate.send_elsewhere hfirst g
    obtain ⟨g'', hothers', hagree'⟩ := ih hothers g'
    rw [Separate.files_send hfirst] at hagree'
    exact ⟨g'', feed_cons_eq_ok_iff.2 ⟨_, _, hfirst', hothers', rfl⟩, hagree' ∘ hagree⟩

theorem ReactsTo.elsewhere {r : Reactions σ} (h : ReactsTo frames f s r) (g : Folder) :
    ReactsTo frames g s r := by
  obtain ⟨f', hfed⟩ := h
  obtain ⟨g', hfed', -⟩ := feedOne_elsewhere hfed g
  exact ⟨g', hfed'⟩

theorem Reacts.cons {now : Reaction σ} {later : Reactions σ} (hnow : Reacts frame f s now)
    (hlater : ReactsTo frames g now.state later) :
    ReactsTo (frame :: frames) f s ⟨now.result :: later.results, later.state⟩ := by
  obtain ⟨f', hsend⟩ := hnow
  obtain ⟨f'', hfeed⟩ := hlater.elsewhere f'
  exact ⟨f'', feed_cons_eq_ok_iff.2 ⟨_, _, hsend, hfeed, rfl⟩⟩

theorem exists_reactions {now : List (Reaction σ)} {later : List (Reactions σ)}
    (hnow : List.Forall₂ (Reacts frame f) sinks now)
    (hlater : List.Forall₂ (ReactsTo frames g) (now.map (·.state)) later) :
    ∃ own, List.Forall₂ (ReactsTo (frame :: frames) f) sinks own ∧
      own.filterMap (·.results[0]?) = now.map (·.result) ∧
      (∀ i, own.filterMap (·.results[i + 1]?) = later.filterMap (·.results[i]?)) ∧
      own.map (·.state) = later.map (·.state) := by
  induction hnow generalizing later with
  | nil =>
    cases hlater
    exact ⟨[], .nil, rfl, fun i => rfl, rfl⟩
  | @cons s r _ _ hreacts _ ih =>
    obtain _ | ⟨hfirst, hrest⟩ := hlater
    obtain ⟨own, hown, hanswers, hfurther, hstate⟩ := ih hrest
    refine ⟨_ :: own, .cons (hreacts.cons hfirst) hown, ?_, fun i => ?_, ?_⟩
    · simp [hanswers]
    · simp [List.filterMap_cons, hfurther i]
    · simp [hstate]

theorem exists_fedApart {joint : Fed (List σ)} (h : feedAll frames sinks f = .ok joint) :
    ∃ own, FedApart frames f sinks joint own := by
  unfold feedAll at h
  induction frames generalizing sinks f joint with
  | nil =>
    cases h
    refine ⟨sinks.map fun s => ⟨[], s⟩, ?_, rfl, ?_, fun hanswer => by simp at hanswer, ?_⟩
    · exact List.forall₂_map_right_iff.2 (List.forall₂_same.2 fun s _ => ⟨f, rfl⟩)
    · simp
    · simp [Function.comp_def]
  | cons frame rest ih =>
    obtain ⟨first, others, hfirst, hothers, rfl⟩ := feed_cons_eq_ok_iff.1 h
    obtain ⟨now, hnow⟩ := exists_sentApart hfirst
    obtain ⟨later, hlater⟩ := ih hothers
    obtain ⟨own, hown, hanswers, hfurther, hstate⟩ :=
      exists_reactions hnow.reacts (hnow.state_eq ▸ hlater.reacts)
    refine ⟨own, hown, congrArg (· + 1) hlater.length_eq, length_of_reactsTo hown,
      fun {i answer} hanswer => ?_, hlater.state_eq.trans hstate.symm⟩
    cases i with
    | zero =>
      obtain rfl : first.result = answer := Option.some.inj hanswer
      exact hanswers ▸ hnow.speaks
    | succ i => exact hfurther i ▸ hlater.speaks hanswer

theorem state_feedAll {joint : Fed (List σ)} {own : Fed σ} (h : feedAll frames sinks f = .ok joint)
    (hs : sinks[i]? = some s) (hown : feedOne frames s f = .ok own) :
    joint.state[i]? = some own.state := by
  obtain ⟨_, happart⟩ := exists_fedApart h
  obtain ⟨r, ⟨g, hr⟩, hstate⟩ := happart.exists_reactsTo hs
  obtain rfl := Except.ok.inj (hr.symm.trans hown)
  exact hstate

/-- Many sinks return from a run if each of them does. -/
theorem exists_feedAll (h : ∀ s ∈ sinks, ∃ own, feedOne frames s f = .ok own) :
    ∃ joint, feedAll frames sinks f = .ok joint := by
  unfold feedAll
  induction frames generalizing sinks f with
  | nil => exact ⟨_, rfl⟩
  | cons frame rest ih =>
    have hnow : ∀ s ∈ sinks, ∃ own, Receives.send s frame f = .ok own := by
      intro s hs
      obtain ⟨own, hown⟩ := h s hs
      obtain ⟨r, _, hsend, -⟩ := feed_cons_eq_ok_iff.1 hown
      exact ⟨r, hsend⟩
    obtain ⟨first, hfirst⟩ := exists_sendAll hnow
    obtain ⟨others, hothers⟩ := @ih first.state.1 first.state.2 fun t ht => by
      obtain ⟨s, hs, r, hsend, rfl⟩ := exists_send_of_mem hfirst ht
      obtain ⟨own, hown⟩ := h s hs
      obtain ⟨r', later, hsend', hlater, -⟩ := feed_cons_eq_ok_iff.1 hown
      obtain rfl := Except.ok.inj (hsend'.symm.trans hsend)
      obtain ⟨_, hlater', -⟩ := feedOne_elsewhere hlater first.state.2
      exact ⟨_, hlater'⟩
    exact ⟨_, feed_cons_eq_ok_iff.2 ⟨first, others, hfirst, hothers, rfl⟩⟩

theorem extends_feedAll {joint : Fed (List σ)} (h : feedAll frames sinks f = .ok joint) :
    f.Extends joint.folder (sinks.flatMap Separate.files) := by
  unfold feedAll at h
  induction frames generalizing sinks f joint with
  | nil =>
    cases h
    exact .refl f _
  | cons frame rest ih =>
    obtain ⟨first, others, hfirst, hothers, rfl⟩ := feed_cons_eq_ok_iff.1 h
    have hrest := ih hothers
    rw [flatMap_files_sendAll hfirst] at hrest
    exact (extends_sendAll hfirst).trans hrest

theorem agreeOn_feedAll {joint : Fed (List σ)} {own : Fed σ}
    (h : feedAll frames sinks f = .ok joint) (hs : sinks[i]? = some s)
    (halone : Alone sinks i (Separate.files s)) (hown : feedOne frames s g = .ok own)
    (hfg : f.AgreeOn g (Separate.files s)) :
    own.folder.AgreeOn joint.folder (Separate.files s) := by
  unfold feedAll at h
  induction frames generalizing sinks s f g joint own with
  | nil =>
    cases h
    cases hown
    exact hfg.symm
  | cons frame rest ih =>
    obtain ⟨first, others, hfirst, hothers, rfl⟩ := feed_cons_eq_ok_iff.1 h
    obtain ⟨r, later, hr, hlater, rfl⟩ := feed_cons_eq_ok_iff.1 hown
    obtain ⟨r', hsend, hstate, hagree⟩ := exists_send_of_sendAll hfirst hs
    obtain ⟨g', hsend', hsame⟩ := Separate.send_elsewhere hsend g
    obtain rfl := Except.ok.inj (hsend'.symm.trans hr)
    have hfiles := Separate.files_send hsend
    have hnow := (hagree halone).symm.trans (hsame hfg)
    have hrest := ih hothers hstate (by rw [hfiles]; exact halone.sendAll hfirst) hlater
      (by rw [hfiles]; exact hnow)
    rwa [hfiles] at hrest

theorem took_feedAll {n : Nat} (c : Course σ n) {joint : Fed (List σ)}
    (h : feedAll frames sinks f = .ok joint) (hs : sinks[i]? = some s)
    (halone : Alone sinks i c.own) (htook : c.took before s f)
    (hroom : before.length + frames.length ≤ n) :
    ∃ t, joint.state[i]? = some t ∧ c.took (before ++ frames) t joint.folder := by
  unfold feedAll at h
  induction frames generalizing sinks s f before joint with
  | nil =>
    cases h
    exact ⟨s, hs, by simpa using htook⟩
  | cons frame rest ih =>
    rw [List.length_cons] at hroom
    obtain ⟨first, others, hfirst, hothers, rfl⟩ := feed_cons_eq_ok_iff.1 h
    obtain ⟨t, ht, htook'⟩ := took_sendAll c hfirst hs halone htook (by omega)
    obtain ⟨t', hstate, hdone⟩ :=
      ih hothers ht (halone.sendAll hfirst) htook' (by rw [List.length_append]; simp; omega)
    exact ⟨t', hstate, by simpa using hdone⟩

end Apart

end Sink

end VectorDisplay
