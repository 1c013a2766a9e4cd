import Mathlib
import VectorDisplay.Proofs.Frame
import VectorDisplay.Proofs.Sinks
/-!
The books of a file sink over any history of starts, sends and stops. Its counters go on over a
restart while its file begins anew, so they are those of the file only until a sink that has stopped
is started again. Main statement: the file holds the frames since the last opening, and the counters
add those from before.
-/

set_option autoImplicit false

namespace VectorDisplay

namespace FileSink

def use (s : FileSink) (folder : Folder) : Sink.Use → SinkReply FileSink
  | .start => s.start folder
  | .send frame => s.send frame folder
  | .stop => s.stop folder

/-- A sink and its folder after some uses, whatever each of them answered. -/
def afterUses (s : FileSink) (folder : Folder) (uses : List Sink.Use) : FileSink × Folder :=
  uses.foldl (fun now u => (now.1.use now.2 u).state) (s, folder)

inductive Stage where
  | unopened | opened | closed
  deriving DecidableEq

/-- What a history of uses comes to: every frame that was sent to an open sink. -/
structure Account where
  stage : Stage := .unopened
  earlier : List Frame := []
  current : List Frame := []

namespace Account

def use (a : Account) : Sink.Use → Account
  | .start => if a.stage = .opened then a else ⟨.opened, a.earlier ++ a.current, []⟩
  | .send frame => if a.stage = .opened then { a with current := a.current ++ [frame] } else a
  | .stop => if a.stage = .opened then { a with stage := .closed } else a

def ofUses (uses : List Sink.Use) : Account := uses.foldl use {}

def frames (a : Account) : List Frame := a.earlier ++ a.current

end Account

structure Kept (path : String) (p : Path) (begun : Folder) (a : Account) (s : FileSink)
    (f : Folder) : Prop where
  path_eq : s.path = path
  frames_eq : s.frames = a.frames.length
  bytes_eq : s.bytes = (Frame.stream a.frames).size
  extends_folder : begun.Extends f [p]
  unopened : a.stage = .unopened → s.writer = none ∧ f = begun ∧ a.frames = []
  opened : a.stage = .opened → s.Saved p f (Frame.stream a.current)
  closed : a.stage = .closed → s.writer = none ∧ f.file? p = some (Frame.stream a.current)

namespace Kept

variable {path : String} {p : Path} {begun g : Folder} {a : Account} {s : FileSink} {f : Folder}

theorem new (size : Size) : Kept path p begun {} { path, size } begun where
  path_eq := rfl
  frames_eq := rfl
  bytes_eq := rfl
  extends_folder := .refl begun [p]
  unopened := fun _ => ⟨rfl, rfl, rfl⟩
  opened := by simp
  closed := by simp

theorem writer_eq_none (h : Kept path p begun a s f) (hstage : a.stage ≠ .opened) :
    s.writer = none := by
  cases hcase : a.stage with
  | unopened => exact (h.unopened hcase).1
  | opened => exact absurd hcase hstage
  | closed => exact (h.closed hcase).1

theorem start (h : Kept path p begun a s f) (hcreate : begun.create path = .ok (p, g)) :
    (s.start f).result = .ok () ∧
      Kept path p begun (a.use .start) (s.start f).state.1 (s.start f).state.2 := by
  by_cases hstage : a.stage = .opened
  · obtain ⟨w, hwriter, -, -⟩ := (h.opened hstage).exists_writer
    simpa [FileSink.start, hwriter, Account.use, hstage] using h
  ·
    have hclosed := h.writer_eq_none hstage
    have hagain := h.extends_folder.create_eq hcreate
    rw [← h.path_eq] at hagain
    obtain ⟨s', log, hstart, hsaved, hextends⟩ := saved_start hclosed hagain
    have hs' : s' = { s with writer := some { path := p } } := by
      simpa [FileSink.start, hclosed, hagain, eq_comm] using
        congrArg (fun r : SinkReply FileSink => r.state.1) hstart
    rw [hstart]
    refine ⟨rfl, ?_⟩
    simp only [Account.use, if_neg hstage]
    exact {
      path_eq := by rw [hs']; exact h.path_eq
      frames_eq := by rw [hs']; simpa [Account.frames] using h.frames_eq
      bytes_eq := by rw [hs']; simpa [Account.frames] using h.bytes_eq
      extends_folder := h.extends_folder.trans hextends
      unopened := by simp
      opened := fun _ => hsaved
      closed := by simp }

theorem send_of_opened (h : Kept path p begun a s f) (hstage : a.stage = .opened)
    (frame : Frame) :
    (s.send frame f).result = .ok () ∧ Kept path p begun (a.use (.send frame))
      (s.send frame f).state.1 (s.send frame f).state.2 := by
  obtain ⟨w, hwriter, -, -⟩ := (h.opened hstage).exists_writer
  obtain ⟨s', g, hsend, hsaved, hextends⟩ := (h.opened hstage).send frame
  have hs' := congrArg (fun r : SinkReply FileSink => r.state.1) hsend
  simp only [FileSink.send, hwriter] at hs'
  rw [hsend]
  refine ⟨rfl, ?_⟩
  have hframes : (a.use (.send frame)).frames = a.frames ++ [frame] := by
    simp [Account.use, hstage, Account.frames]
  exact {
    path_eq := by rw [← hs']; exact h.path_eq
    frames_eq := by rw [← hs', hframes]; simp [h.frames_eq]
    bytes_eq := by rw [← hs', hframes, Frame.stream_concat]; simp [h.bytes_eq]
    extends_folder := h.extends_folder.trans hextends
    unopened := by simp [Account.use, hstage]
    opened := by
      intro _
      simpa only [Account.use, if_pos hstage, Frame.stream_concat] using hsaved
    closed := by simp [Account.use, hstage] }

theorem send_of_ne (h : Kept path p begun a s f) (hstage : a.stage ≠ .opened) (frame : Frame) :
    s.send frame f = ⟨.error (notStarted "file_write"), (s, f), []⟩ := by
  simp only [FileSink.send, h.writer_eq_none hstage]

theorem stop (h : Kept path p begun a s f) :
    (s.stop f).result = .ok () ∧
      Kept path p begun (a.use .stop) (s.stop f).state.1 (s.stop f).state.2 := by
  refine ⟨rfl, ?_⟩
  by_cases hstage : a.stage = .opened
  · obtain ⟨s', g, log, hstop, hfile, hextends⟩ := (h.opened hstage).stop
    have hs' := congrArg (fun r : SinkReply FileSink => r.state.1) hstop
    simp only [FileSink.stop] at hs'
    rw [hstop]
    simp only [Account.use, if_pos hstage]
    exact {
      path_eq := by rw [← hs']; exact h.path_eq
      frames_eq := by rw [← hs']; exact h.frames_eq
      bytes_eq := by rw [← hs']; exact h.bytes_eq
      extends_folder := h.extends_folder.trans hextends
      unopened := by simp
      opened := by simp
      closed := fun _ => ⟨by rw [← hs'], hfile⟩ }
  · have hclosed := h.writer_eq_none hstage
    have hstop : (s.stop f).state = (s, f) := by
      cases s
      simp_all [FileSink.stop]
    rw [hstop]
    simpa only [Account.use, if_neg hstage] using h

theorem use (h : Kept path p begun a s f) (hcreate : begun.create path = .ok (p, g))
    (u : Sink.Use) :
    Kept path p begun (a.use u) (s.use f u).state.1 (s.use f u).state.2 := by
  cases u with
  | start => exact (h.start hcreate).2
  | send frame =>
    by_cases hstage : a.stage = .opened
    · exact (h.send_of_opened hstage frame).2
    · simp only [FileSink.use, h.send_of_ne hstage]
      simpa only [Account.use, if_neg hstage] using h
  | stop => exact h.stop.2

theorem afterUses (h : Kept path p begun a s f) (hcreate : begun.create path = .ok (p, g))
    (uses : List Sink.Use) :
    Kept path p begun (uses.foldl Account.use a) (s.afterUses f uses).1
      (s.afterUses f uses).2 := by
  induction uses generalizing a s f with
  | nil => exact h
  | cons u rest ih => exact ih (h.use hcreate u)

end Kept

/-- What a sink that was used on a file shows of its history, and what its file shows. -/
structure Booked (path : String) (begun : Folder) (a : Account) (s : FileSink) (f : Folder) :
    Prop where
  frames_eq : s.frames = a.earlier.length + a.current.length
  bytes_eq : s.bytes = (Frame.stream a.earlier).size + (Frame.stream a.current).size
  started : (s.start f).result = .ok ()
  accepted : a.stage = .opened → ∀ frame, (s.send frame f).result = .ok ()
  refused : a.stage ≠ .opened → ∀ frame,
    s.send frame f = ⟨.error (notStarted "file_write"), (s, f), []⟩
  stopped : (s.stop f).result = .ok ()
  unopened : a.stage = .unopened → f = begun
  closed : a.stage = .closed → f.read path = .ok (Frame.stream a.current)

/-- However a sink is used on a file that can be created, its counters are those of all frames that
it accepted. A file that is closed holds those since the last opening; so both agree as long as a
sink that accepted frames is not opened again. -/
theorem uses_are_booked {path : String} {folder g : Folder} {p : Path} (size : Size)
    (hcreate : folder.create path = .ok (p, g)) (uses : List Sink.Use) :
    Booked path folder (.ofUses uses) (afterUses { path, size } folder uses).1
      (afterUses { path, size } folder uses).2 := by
  have h : Kept path p folder (.ofUses uses) _ _ := (Kept.new size).afterUses hcreate uses
  exact {
    frames_eq := by rw [h.frames_eq, Account.frames, List.length_append]
    bytes_eq := by rw [h.bytes_eq, Account.frames, Frame.stream_append, ByteArray.size_append]
    started := (h.start hcreate).1
    accepted := fun hstage frame => (h.send_of_opened hstage frame).1
    refused := fun hstage frame => h.send_of_ne hstage frame
    stopped := h.stop.1
    unopened := fun hstage => (h.unopened hstage).2.1
    closed := fun hstage => h.extends_folder.read_created hcreate (h.closed hstage).2 }

theorem uses_are_booked_restarted :
    let uses : List Sink.Use := [.start, .send .dot, .stop, .start, .send .dot, .stop]
    let now := afterUses { path := "o" } {} uses
    now.1.frames = 2 ∧ now.1.bytes = 8 ∧ now.2.read "o" = .ok ⟨#[9, 9, 9, 0]⟩ := by
  intro uses now
  have hcreate : Folder.create {} "o" = .ok (["o"], Folder.put {} ["o"] .empty) := by cbv
  have h := uses_are_booked {} hcreate uses
  exact ⟨h.frames_eq, h.bytes_eq, h.closed rfl⟩

end FileSink

end VectorDisplay
