import Mathlib.Data.List.Forall2
import VectorDisplay.Proofs.Folder
import VectorDisplay.Sink
set_option autoImplicit false

namespace VectorDisplay

namespace Folder

/-- Both folders have the same at some paths. -/
def AgreeOn (f g : Folder) (paths : List Path) : Prop := ∀ p ∈ paths, g.file? p = f.file? p

variable {f g h : Folder} {paths changed : List Path}

theorem AgreeOn.refl (f : Folder) (paths : List Path) : f.AgreeOn f paths := fun _ _ => rfl

theorem AgreeOn.trans (hfg : f.AgreeOn g paths) (hgh : g.AgreeOn h paths) : f.AgreeOn h paths :=
  fun p hp => (hgh p hp).trans (hfg p hp)

theorem AgreeOn.symm (hfg : f.AgreeOn g paths) : g.AgreeOn f paths := fun p hp => (hfg p hp).symm

theorem Extends.agreeOn (hfg : f.Extends g changed) (hdisjoint : paths.Disjoint changed) :
    f.AgreeOn g paths := fun _ hp => hfg.file?_eq fun hchanged => hdisjoint hp hchanged

end Folder

/-- Sinks that send the same way in every folder, and touch no files there but their own. -/
class Separate (σ : Type) [Receives σ] where
  files : σ → List Path
  send_elsewhere {s : σ} {frame : Frame} {f : Folder} {r : SinkReply σ} :
    Receives.send s frame f = .ok r → ∀ g, ∃ h,
      Receives.send s frame g = .ok ⟨r.result, (r.state.1, h), r.log⟩ ∧
        (f.AgreeOn g (files s) → r.state.2.AgreeOn h (files s))
  files_send {s : σ} {frame : Frame} {f : Folder} {r : SinkReply σ} :
    Receives.send s frame f = .ok r → files r.state.1 = files s
  extends_send {s : σ} {frame : Frame} {f : Folder} {r : SinkReply σ} :
    Receives.send s frame f = .ok r → f.Extends r.state.2 (files s)

namespace Writer

open Folder

/-- What an operation gives does not depend on the folder, and its effect on the file only on what
is in that file. -/
def Blind (path : Path) (op : Folder → Writer × Folder) : Prop :=
  ∀ f g, (op g).1 = (op f).1 ∧ (f.AgreeOn g [path] → (op f).2.AgreeOn (op g).2 [path])

variable (w : Writer) (bytes : ByteArray)

theorem blind_pass : Blind w.path (w.pass bytes) := by
  intro f g
  refine ⟨rfl, fun hfg p hp => ?_⟩
  obtain rfl : p = w.path := List.mem_singleton.1 hp
  simp only [pass, writeAt, file?_put_self, hfg w.path hp]

theorem blind_flush : Blind w.path w.flush := by
  intro f g
  unfold flush
  split
  · exact ⟨rfl, id⟩
  · exact blind_pass { w with held := .empty } w.held f g

theorem blind_write : Blind w.path (w.write bytes) := by
  intro f g
  obtain ⟨hwriter, hfile⟩ := w.blind_flush f g
  by_cases hover : limit < w.held.size + bytes.size <;> by_cases hlarge : limit ≤ bytes.size
  · obtain ⟨hpassed, hagree⟩ := blind_pass (w.flush f).1 bytes (w.flush f).2 (w.flush g).2
    rw [path_flush] at hagree
    simp only [write, hover, hlarge, if_true, hwriter]
    exact ⟨hpassed, fun hfg => hagree (hfile hfg)⟩
  · simpa only [write, hover, hlarge, if_true, if_false, hwriter, true_and] using hfile
  · simpa only [write, hover, hlarge, if_true, if_false] using w.blind_pass bytes f g
  · simp only [write, hover, hlarge, if_false, true_and, imp_self]

end Writer

namespace Sink

def files : Sink → List Path
  | .file s => s.writer.toList.map (·.path)
  | .report s => s.writer.toList.map (·.path)
  | .handoff _ => []

/-- What a sink does with a frame: it writes to its file, or it does nothing to any file, and each
is the same in all folders. -/
theorem send_cases (s : Sink) (frame : Frame) :
    (∃ (w : Writer) (bytes : ByteArray) (t : Writer → Sink), s.files = [w.path] ∧
      (∀ w', (t w').files = [w'.path]) ∧ ∀ f, s.send frame f =
        .ok ⟨.ok (), (t (w.write bytes f).1, (w.write bytes f).2), []⟩) ∨
    (∃ result t, t.files = s.files ∧ ∀ f, s.send frame f = .ok ⟨result, (t, f), []⟩) ∨
    ∃ fault, ∀ f, s.send frame f = .error fault := by
  cases s with
  | file s =>
    cases hwriter : s.writer with
    | none =>
      refine .inr (.inl ⟨.error (notStarted "file_write"), .file s, rfl, fun f => ?_⟩)
      simp only [send, FileSink.send, hwriter, lift]
    | some w =>
      refine .inl ⟨w, frame.bytes, fun w' => .file { s with
        frames := s.frames + 1
        bytes := s.bytes + frame.bytes.size
        writer := some w' }, by simp [files, hwriter], fun w' => rfl, fun f => ?_⟩
      simp only [send, FileSink.send, hwriter, lift]
  | report s =>
    cases hwriter : s.writer with
    | none =>
      refine .inr (.inl ⟨.error (notStarted "report_write"), .report s, rfl, fun f => ?_⟩)
      simp only [send, ReportSink.send, hwriter, lift]
    | some w =>
      refine .inl ⟨w, (s.line frame).toUTF8, fun w' => .report { s with
        frames := s.frames + 1
        writer := some w' }, by simp [files, hwriter], fun w' => rfl, fun f => ?_⟩
      simp only [send, ReportSink.send, hwriter, lift]
  | handoff s =>
    cases hsend : s.send frame with
    | error fault => exact .inr (.inr ⟨fault, fun f => by simp only [send, hsend]⟩)
    | ok sent =>
      obtain ⟨result, t⟩ := sent
      exact .inr (.inl ⟨result, .handoff t, rfl, fun f => by simp only [send, hsend]⟩)

section Send

variable {s : Sink} {frame : Frame} {f : Folder} {r : SinkReply Sink}

theorem send_elsewhere (hsend : s.send frame f = .ok r) (g : Folder) :
    ∃ h, s.send frame g = .ok ⟨r.result, (r.state.1, h), r.log⟩ ∧
      (f.AgreeOn g s.files → r.state.2.AgreeOn h s.files) := by
  obtain ⟨w, bytes, t, hfiles, -, heq⟩ | ⟨result, t, -, heq⟩ | ⟨fault, heq⟩ := s.send_cases frame
  · obtain ⟨hsame, hagree⟩ := w.blind_write bytes f g
    rw [heq] at hsend
    cases hsend
    exact ⟨_, by rw [heq, hsame], hfiles ▸ hagree⟩
  · rw [heq] at hsend
    cases hsend
    exact ⟨g, heq g, id⟩
  · rw [heq] at hsend
    cases hsend

theorem files_send (hsend : s.send frame f = .ok r) : r.state.1.files = s.files := by
  obtain ⟨w, bytes, t, hfiles, ht, heq⟩ | ⟨result, t, ht, heq⟩ | ⟨fault, heq⟩ := s.send_cases frame
  · rw [heq] at hsend
    cases hsend
    rw [ht, Writer.path_write, hfiles]
  · rw [heq] at hsend
    cases hsend
    exact ht
  · rw [heq] at hsend
    cases hsend

theorem extends_send (hsend : s.send frame f = .ok r) : f.Extends r.state.2 s.files := by
  obtain ⟨w, bytes, t, hfiles, -, heq⟩ | ⟨result, t, -, heq⟩ | ⟨fault, heq⟩ := s.send_cases frame
  · rw [heq] at hsend
    cases hsend
    rw [hfiles]
    exact w.extends_write bytes (.refl f _) (List.mem_singleton_self _)
  · rw [heq] at hsend
    cases hsend
    exact .refl f _
  · rw [heq] at hsend
    cases hsend

end Send

instance : Separate Sink := ⟨files, send_elsewhere, files_send, extends_send⟩

end Sink

end VectorDisplay
