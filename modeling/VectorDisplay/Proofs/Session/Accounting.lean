import VectorDisplay.Proofs.Session
import VectorDisplay.Proofs.Sinks.Following
set_option autoImplicit false

namespace VectorDisplay

/-- A picture with its frame; none where the frame was lost. -/
abbrev Round := Picture × Option Frame

namespace Round

def frames (rounds : List Round) : List Frame := rounds.filterMap Prod.snd

def enough (maxFrames : Option Nat) (sent : Nat) : Bool := maxFrames.any (· ≤ sent)

/-- The rounds until enough frames were sent, counting on from some. -/
def pulled (maxFrames : Option Nat) : Nat → List Round → List Round
  | _, [] => []
  | sent, (picture, outcome) :: rest =>
    if enough maxFrames sent then []
    else (picture, outcome) :: pulled maxFrames (sent + outcome.toList.length) rest

def due (maxFrames : Option Nat) (total : Nat) : Nat := min (maxFrames.getD total) total

theorem frames_cons (picture : Picture) (outcome : Option Frame) (rest : List Round) :
    frames ((picture, outcome) :: rest) = outcome.toList ++ frames rest := by
  cases outcome <;> rfl

theorem frames_concat (picture : Picture) (outcome : Option Frame) (rounds : List Round) :
    frames (rounds ++ [(picture, outcome)]) = frames rounds ++ outcome.toList := by
  cases outcome <;> simp [frames]

variable {maxFrames : Option Nat} {sent : Nat} {rounds : List Round}

theorem exists_enough (h : enough maxFrames sent = true) : ∃ m, maxFrames = some m ∧ m ≤ sent := by
  simpa [enough, Option.any_eq_true] using h

theorem lt_of_not_enough (h : enough maxFrames sent = false) : ∀ m ∈ maxFrames, sent < m := by
  rintro m rfl
  simpa [enough] using h

theorem add_le_due (h : enough maxFrames sent = false) {outcome : Option Frame} {total : Nat}
    (htotal : sent + outcome.toList.length ≤ total) :
    sent + outcome.toList.length ≤ due maxFrames total := by
  have hone : outcome.toList.length ≤ 1 := by cases outcome <;> simp
  cases maxFrames with
  | none => simpa [due] using htotal
  | some m =>
    have hless := lt_of_not_enough h m rfl
    simp only [due, Option.getD_some]
    omega

theorem pulled_of_enough (h : enough maxFrames sent = true) (rounds : List Round) :
    pulled maxFrames sent rounds = [] := by
  cases rounds with
  | nil => rfl
  | cons round rest => rw [pulled, if_pos h]

theorem pulled_cons (h : enough maxFrames sent = false) (picture : Picture) (outcome : Option Frame)
    (rest : List Round) : pulled maxFrames sent ((picture, outcome) :: rest) =
      (picture, outcome) :: pulled maxFrames (sent + outcome.toList.length) rest := by
  rw [pulled, if_neg (by simp [h])]

theorem exists_pulled_append (maxFrames : Option Nat) (sent : Nat) (rounds : List Round) :
    ∃ later, pulled maxFrames sent rounds ++ later = rounds := by
  induction rounds generalizing sent with
  | nil => exact ⟨[], rfl⟩
  | cons round rest ih =>
    obtain ⟨picture, outcome⟩ := round
    cases hmore : enough maxFrames sent with
    | true => exact ⟨_, by rw [pulled_of_enough hmore, List.nil_append]⟩
    | false =>
      obtain ⟨later, hlater⟩ := ih (sent + outcome.toList.length)
      exact ⟨later, by rw [pulled_cons hmore, List.cons_append, hlater]⟩

theorem not_enough_of_lt_pulled {k : Nat} (hk : k < (pulled maxFrames sent rounds).length) :
    enough maxFrames (sent + (frames ((pulled maxFrames sent rounds).take k)).length) = false := by
  induction rounds generalizing sent k with
  | nil => exact absurd hk (Nat.not_lt_zero k)
  | cons round rest ih =>
    obtain ⟨picture, outcome⟩ := round
    cases hmore : enough maxFrames sent with
    | true =>
      rw [pulled_of_enough hmore] at hk
      exact absurd hk (Nat.not_lt_zero k)
    | false =>
      rw [pulled_cons hmore] at hk ⊢
      cases k with
      | zero => exact hmore
      | succ k =>
        rw [List.take_succ_cons, frames_cons, List.length_append, ← Nat.add_assoc]
        exact ih (Nat.lt_of_succ_lt_succ hk)

theorem enough_of_pulled_ne (h : pulled maxFrames sent rounds ≠ rounds) :
    enough maxFrames (sent + (frames (pulled maxFrames sent rounds)).length) = true := by
  induction rounds generalizing sent with
  | nil => exact absurd rfl h
  | cons round rest ih =>
    obtain ⟨picture, outcome⟩ := round
    cases hmore : enough maxFrames sent with
    | true => rwa [pulled_of_enough hmore]
    | false =>
      rw [pulled_cons hmore] at h ⊢
      rw [frames_cons, List.length_append, ← Nat.add_assoc]
      exact ih fun heq => h (congrArg _ heq)

theorem length_frames_pulled (hsent : ∀ m ∈ maxFrames, sent ≤ m) :
    sent + (frames (pulled maxFrames sent rounds)).length =
      due maxFrames (sent + (frames rounds).length) := by
  induction rounds generalizing sent with
  | nil =>
    cases maxFrames with
    | none => simp [pulled, frames, due]
    | some m => simpa [pulled, frames, due] using hsent
  | cons round rest ih =>
    obtain ⟨picture, outcome⟩ := round
    cases hmore : enough maxFrames sent with
    | true =>
      obtain ⟨m, rfl, hm⟩ := exists_enough hmore
      have := hsent m rfl
      simp only [pulled_of_enough hmore, due, frames, Option.getD_some, List.filterMap_nil,
        List.length_nil]
      omega
    | false =>
      rw [pulled_cons hmore, frames_cons, frames_cons, List.length_append, List.length_append,
        ← Nat.add_assoc, ← Nat.add_assoc]
      refine ih fun m hm => ?_
      have hless := lt_of_not_enough hmore m hm
      have hone : outcome.toList.length ≤ 1 := by cases outcome <;> simp
      omega

/-- The rounds that a session shows: up to the first before which enough frames were sent. -/
structure Shown (maxFrames : Option Nat) (rounds shown : List Round) : Prop where
  exists_append : ∃ later, shown ++ later = rounds
  not_enough {k : Nat} : k < shown.length →
    enough maxFrames (frames (shown.take k)).length = false
  enough_of_ne : shown ≠ rounds → enough maxFrames (frames shown).length = true
  length_frames_eq : (frames shown).length = due maxFrames (frames rounds).length

theorem shown_pulled (maxFrames : Option Nat) (rounds : List Round) :
    Shown maxFrames rounds (pulled maxFrames 0 rounds) where
  exists_append := exists_pulled_append maxFrames 0 rounds
  not_enough hk := by simpa using not_enough_of_lt_pulled hk
  enough_of_ne hne := by simpa using enough_of_pulled_ne hne
  length_frames_eq := by simpa using length_frames_pulled (fun m _ => Nat.zero_le m)

end Round

section Parts

variable {π ς σ : Type} [Draws π] [Supplies ς] [Receives σ]

/-- A source that gives some pictures and then nothing more, whatever else changes in a calm
folder. -/
def Supplies.Feeds (calm : Folder → Prop) : List Picture → ς → Prop
  | [], source => ∀ f, calm f → ∃ source' log, Supplies.next source f = .ok ⟨.ok none, source', log⟩
  | picture :: rest, source => ∀ f, calm f → ∃ source' log,
      Supplies.next source f = .ok ⟨.ok (some picture), source', log⟩ ∧ Feeds calm rest source'

/-- The pictures that were pulled from a source, and whether it was then asked once more, in vain. -/
inductive Supplies.Pulled : ς → List Picture → Bool → ς → Prop where
  | nil {source : ς} : Pulled source [] false source
  | ended {source source' : ς} {f : Folder} {log : Log}
      (hnext : Supplies.next source f = .ok ⟨.ok none, source', log⟩) :
      Pulled source [] true source'
  | cons {source source' source'' : ς} {picture : Picture} {rest : List Picture} {ended : Bool}
      {f : Folder} {log : Log}
      (hnext : Supplies.next source f = .ok ⟨.ok (some picture), source', log⟩)
      (hrest : Pulled source' rest ended source'') :
      Pulled source (picture :: rest) ended source''

/-- A processor that plays some rounds one after the other. It has the storage of each frame back,
unless a sink keeps the frame. -/
def Draws.Plays (kept : Bool) : List Round → π → Prop
  | [], _ => True
  | (picture, none) :: rest, processor => ∃ processor' log,
      Draws.process processor picture = .ok ⟨.ok none, processor', log⟩ ∧ Plays kept rest processor'
  | (picture, some frame) :: rest, processor => ∃ processor' log,
      Draws.process processor picture = .ok ⟨.ok (some frame), processor', log⟩ ∧
        Plays kept rest (if kept then processor' else Draws.recycle processor' frame.storage)

def Summary.ofRounds (rounds : List Round) : Summary :=
  { Summary.ofFrames (Round.frames rounds) with
    dropped := rounds.countP (·.2.isNone) }

theorem Summary.frames_add_dropped_ofRounds (rounds : List Round) :
    (ofRounds rounds).frames + (ofRounds rounds).dropped = rounds.length := by
  have hframes : (Round.frames rounds).length = rounds.countP (·.2.isSome) :=
    List.length_filterMap_eq_countP
  have hlost : rounds.countP (·.2.isNone) = rounds.countP fun r => ¬ r.2.isSome = true :=
    List.countP_congr fun r _ => by cases r.2 <;> simp
  rw [List.length_eq_countP_add_countP (·.2.isSome) (l := rounds), ← hlost, ← hframes]
  rfl

namespace Studio

variable {n : Nat}

structure Played (s : Studio π σ) (courses : List (Course σ n)) (begun : Folder)
    (rounds : List Round) : Prop where
  took : Course.TookAll courses (Round.frames rounds) s.sinks s.folder
  extends_folder : begun.Extends s.folder (Course.ownAll courses)
  summary_eq : s.summary = .ofRounds rounds

namespace Played

variable {s : Studio π σ} {courses : List (Course σ n)} {begun : Folder} {rounds : List Round}

omit [Draws π] in
theorem note (h : s.Played courses begun rounds) (log : Log) :
    (s.note log).Played courses begun rounds := ⟨h.took, h.extends_folder, h.summary_eq⟩

theorem draw_lost (h : s.Played courses begun rounds) {picture : Picture} {processor : π}
    {log : Log} (hprocess : Draws.process s.processor picture = .ok ⟨.ok none, processor, log⟩) :
    ∃ s', s.draw picture = (.ok (), s') ∧ s'.Played courses begun (rounds ++ [(picture, none)]) ∧
      s'.processor = processor := by
  refine ⟨_, draw_of_none hprocess, ⟨?_, h.extends_folder, ?_⟩, rfl⟩
  · simpa [Round.frames] using h.took
  · simp [h.summary_eq, Summary.ofRounds, Round.frames]

theorem draw_made (h : s.Played courses begun rounds) (hapart : courses.Pairwise Course.Apart)
    (hroom : (Round.frames rounds).length < n) {picture : Picture} {frame : Frame} {processor : π}
    {log : Log}
    (hprocess : Draws.process s.processor picture = .ok ⟨.ok (some frame), processor, log⟩) :
    ∃ s', s.draw picture = (.ok (), s') ∧
      s'.Played courses begun (rounds ++ [(picture, some frame)]) ∧
      s'.processor = if courses.any Course.held then processor
        else Draws.recycle processor frame.storage := by
  obtain ⟨sinks, g, records, hsend, htook, hextends⟩ := Course.sendAll h.took hapart hroom frame
  have hframes : Round.frames (rounds ++ [(picture, some frame)]) = Round.frames rounds ++ [frame] := by
    simp [Round.frames]
  refine ⟨_, draw_of_some hprocess hsend, ⟨?_, h.extends_folder.trans hextends, ?_⟩, ?_⟩
  · rw [hframes]
    exact htook
  · simp only [h.summary_eq, Summary.ofRounds, hframes, Summary.ofFrames_concat]
    simp [Summary.add]
  · rw [← Course.any_holdsFrames htook]

theorem draw (h : s.Played courses begun rounds) (hapart : courses.Pairwise Course.Apart)
    {picture : Picture} {outcome : Option Frame} {rest : List Round}
    (hroom : (Round.frames rounds).length + outcome.toList.length ≤ n)
    (hplays : Draws.Plays (courses.any Course.held) ((picture, outcome) :: rest) s.processor) :
    ∃ s', s.draw picture = (.ok (), s') ∧ s'.Played courses begun (rounds ++ [(picture, outcome)]) ∧
      Draws.Plays (courses.any Course.held) rest s'.processor := by
  cases outcome with
  | none =>
    obtain ⟨processor, log, hprocess, hrest⟩ := hplays
    obtain ⟨s', hdraw, hplayed, rfl⟩ := h.draw_lost hprocess
    exact ⟨s', hdraw, hplayed, hrest⟩
  | some frame =>
    obtain ⟨processor, log, hprocess, hrest⟩ := hplays
    obtain ⟨s', hdraw, hplayed, hprocessor⟩ := h.draw_made hapart hroom hprocess
    exact ⟨s', hdraw, hplayed, hprocessor ▸ hrest⟩

omit [Draws π] in
theorem frames_eq (h : s.Played courses begun rounds) :
    s.summary.frames = (Round.frames rounds).length := by
  rw [h.summary_eq]
  rfl

variable {maxFrames : Option Nat}

theorem showAll (h : s.Played courses begun rounds) (hapart : courses.Pairwise Course.Apart)
    {rest : List Round} {source : ς}
    (hfeeds : Supplies.Feeds (begun.Extends · (Course.ownAll courses)) (rest.map Prod.fst) source)
    (hplays : Draws.Plays (courses.any Course.held) rest s.processor)
    (hroom : Round.due maxFrames ((Round.frames rounds).length + (Round.frames rest).length) ≤ n) :
    ∃ shown source' s', shown = Round.pulled maxFrames (Round.frames rounds).length rest ∧
      s.showAll maxFrames source = ⟨.ok (), source', s'⟩ ∧
      s'.Played courses begun (rounds ++ shown) ∧
      Supplies.Pulled source (shown.map Prod.fst) (!Round.enough maxFrames s'.summary.frames)
        source' := by
  induction rest generalizing s rounds source with
  | nil =>
    cases hmore : Round.enough maxFrames s.summary.frames with
    | true =>
      exact ⟨[], source, s, rfl, showAll_of_enough hmore source, by simpa using h, by
        rw [hmore]; exact .nil⟩
    | false =>
      obtain ⟨source', log, hnext⟩ := hfeeds s.folder h.extends_folder
      refine ⟨[], source', s.note log, rfl, showAll_of_none hmore hnext, ?_, ?_⟩
      · simpa using h.note log
      · have hsummary : (s.note log).summary = s.summary := rfl
        rw [hsummary, hmore]
        exact .ended hnext
  | cons round rest ih =>
    obtain ⟨picture, outcome⟩ := round
    have hsent := h.frames_eq
    cases hmore : Round.enough maxFrames s.summary.frames with
    | true =>
      refine ⟨[], source, s, ?_, showAll_of_enough hmore source, by simpa using h, ?_⟩
      · rw [Round.pulled_of_enough (hsent ▸ hmore)]
      · rw [hmore]
        exact .nil
    | false =>
      rw [Round.frames_cons, List.length_append] at hroom
      have hfits : (Round.frames rounds).length + outcome.toList.length ≤ n :=
        (Round.add_le_due (hsent ▸ hmore) (by omega)).trans hroom
      obtain ⟨source', log, hnext, hfeeds'⟩ := hfeeds s.folder h.extends_folder
      obtain ⟨s', hdraw, hplayed, hplays'⟩ := (h.note log).draw hapart hfits hplays
      have hframes := Round.frames_concat picture outcome rounds
      obtain ⟨shown, source'', s'', hshown, hshow, hend, hpulled⟩ := ih hplayed hfeeds' hplays' (by
        rwa [hframes, List.length_append, Nat.add_assoc])
      refine ⟨(picture, outcome) :: shown, source'', s'', ?_, ?_, ?_, .cons hnext hpulled⟩
      · rw [Round.pulled_cons (hsent ▸ hmore), hshown, hframes, List.length_append]
      · rw [showAll_of_some hmore hnext hdraw, hshow]
      · simpa using hend

end Played

end Studio

namespace Session

/-- A session whose source gives the pictures of some rounds, in any calm folder, and whose processor
plays them. -/
structure Plays (session : Session π ς σ) (folder : Folder) (calm : Folder → Prop) (kept : Bool)
    (rounds : List Round) (source : ς) : Prop where
  start_source : ∃ log, Supplies.start session.source folder = .ok ⟨.ok (), source, log⟩
  feeds : Supplies.Feeds calm (rounds.map Prod.fst) source
  start_processor : ∃ output processor log,
    Draws.start session.processor (Supplies.size source) = ⟨.ok output, processor, log⟩ ∧
      Draws.Plays kept rounds processor
  stop_source {pictures : List Picture} {ended : Bool} {last : ς} :
    Supplies.Pulled source pictures ended last → ∀ f, (Supplies.stop last f).result = .ok ()

variable {n : Nat} {session : Session π ς σ} {folder : Folder} {courses : List (Course σ n)}
  {rounds shown : List Round} {source : ς}

/-- How a session ends that has shown some rounds, with each of its sinks at the end of its course. -/
structure EndsAfter (session : Session π ς σ) (folder : Folder) (courses : List (Course σ n))
    (source : ς) (shown : List Round) : Prop where
  result_eq : (session.run folder).result = .ok ()
  summary_eq : (session.run folder).studio.summary = .ofRounds shown
  pulled : ∃ last f, Supplies.Pulled source (shown.map Prod.fst)
      (!Round.enough session.maxFrames (Round.frames shown).length) last ∧
    (session.run folder).source = (Supplies.stop last f).state
  left : Course.LeftAll courses (Round.frames shown) (session.run folder).studio.sinks
    (session.run folder).studio.folder
  extends_folder : folder.Extends (session.run folder).studio.folder (Course.ownAll courses)

theorem run_of_plays (hapart : courses.Pairwise Course.Apart)
    (hstarts : List.Forall₂ (Course.Starts folder) courses session.sinks)
    (hplays : session.Plays folder (folder.Extends · (Course.ownAll courses))
      (courses.any Course.held) rounds source)
    (hroom : Round.due session.maxFrames (Round.frames rounds).length ≤ n) :
    session.EndsAfter folder courses source (Round.pulled session.maxFrames 0 rounds) := by
  obtain ⟨log, hsource⟩ := hplays.start_source
  obtain ⟨output, processor, log', hprocessor, hplayed⟩ := hplays.start_processor
  obtain ⟨sinks, g, log'', hsinks, htook, hextends⟩ :=
    Course.startAll hstarts hapart (.refl folder []) (fun _ _ h => absurd h List.not_mem_nil)
  obtain ⟨records, hstart⟩ := start_of_ok hsource hprocessor hsinks
  have hbegun : (⟨processor, sinks, g, {}, records⟩ : Studio π σ).Played courses folder [] :=
    ⟨htook, hextends, rfl⟩
  have hroom' : Round.due session.maxFrames
      ((Round.frames []).length + (Round.frames rounds).length) ≤ n := by
    simpa [Round.frames] using hroom
  obtain ⟨shown, last, s, rfl, hshow, hend, hpulled⟩ :=
    hbegun.showAll hapart hplays.feeds hplayed hroom'
  obtain ⟨sinks', g', log, hstop, hleft, hextends'⟩ := Course.stopAll hend.took hapart
  obtain ⟨records, hclose⟩ := Studio.close_of_ok hstop
  have hsilent : Supplies.stop last g' =
      ⟨.ok (), (Supplies.stop last g').state, (Supplies.stop last g').log⟩ := by
    rw [← hplays.stop_source hpulled g']
  obtain ⟨records, hrun⟩ := run_of_ok hstart hshow hclose hsilent
  rw [hend.frames_eq] at hpulled
  constructor <;> rw [hrun]
  · exact hend.summary_eq
  · exact ⟨last, g', hpulled, rfl⟩
  · exact hleft
  · exact hend.extends_folder.trans hextends'

end Session

end Parts

end VectorDisplay
