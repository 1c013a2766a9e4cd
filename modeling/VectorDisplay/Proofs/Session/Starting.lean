import VectorDisplay.Platform
import VectorDisplay.Proofs.Picture.Layout
import VectorDisplay.Proofs.Session
set_option autoImplicit false

namespace VectorDisplay

/-- A file gives no picture: it cannot be read, it holds no image, or the image has no pixels. -/
inductive Folder.Unshowable [ImageLibrary] (f : Folder) (path : String) : Error → Prop where
  | unread {reason : PathError} (hread : f.read path = .error reason) :
      Unshowable f path (.of (.io "image_read" path reason.message))
  | undecoded {bytes : ByteArray} {flaw : Undecoded} (hread : f.read path = .ok bytes)
      (hdecode : ImageLibrary.decode bytes = .error flaw) :
      Unshowable f path (.of (flaw.cause path))
  | empty {bytes : ByteArray} {image : Image} (hread : f.read path = .ok bytes)
      (hdecode : ImageLibrary.decode bytes = .ok image)
      (hempty : image.width.toNat = 0 ∨ image.height.toNat = 0) :
      Unshowable f path ((Error.of (.validation "frame_size" "width and height must be non-zero"
        (toString image.width ++ "x" ++ toString image.height))).during path)

theorem size_fold_push (f : Nat → UInt8) (n : Nat) :
    (n.fold (fun k _ (out : ByteArray) => out.push (f k)) .empty).size = n := by
  induction n with
  | zero => rfl
  | succ n ih => rw [Nat.fold_succ, ByteArray.size_push, ih]

theorem Image.size_luma (i : Image) : i.luma.size = i.width.toNat * i.height.toNat :=
  size_fold_push _ _

namespace Picture

theorem ofImage_of_empty {i : Image} (h : i.width.toNat = 0 ∨ i.height.toNat = 0) :
    ofImage i = .ok (ofStride.empty i.width i.height) := by
  unfold ofImage ofBytes ofStride
  split
  · rfl
  · next hwidth => rw [dif_pos (h.resolve_left hwidth)]

theorem exists_ofImage {i : Image} (hwidth : i.width.toNat ≠ 0) (hheight : i.height.toNat ≠ 0) :
    ∃ p, ofImage i = .ok (.ok p) := by
  have hshaped : Shaped i.width i.height i.width.toNat :=
    ⟨Nat.pos_of_ne_zero hwidth, Nat.pos_of_ne_zero hheight, Nat.le_refl _⟩
  have hnear : span i.width i.height i.width.toNat < wordLimit :=
    span_lt_wordLimit i.width.toNat_lt
  have hreach : span i.width i.height i.width.toNat ≤ i.luma.size := by
    obtain ⟨n, hn⟩ := Nat.exists_eq_succ_of_ne_zero hheight
    rw [i.size_luma, span, hn, Nat.succ_sub_one, Nat.mul_succ]
  rcases ofStride_cases i.luma i.width i.height i.width.toNat with ⟨hnot, -⟩ | ⟨-, hfar, -⟩ |
    ⟨-, -, hfew, -⟩ | ⟨-, -, -, p, hp, -⟩
  · exact absurd hshaped hnot
  · exact absurd hnear (Nat.not_lt.2 hfar)
  · exact absurd hreach (Nat.not_le.2 hfew)
  · exact ⟨p, hp⟩

end Picture

namespace ImageSequence

variable {folder : Folder} {path : String} {error : Error}

theorem decode_of_unshowable [ImageLibrary] (h : folder.Unshowable path error) :
    decode folder path = .ok (.error error) := by
  unfold decode
  cases h with
  | unread hread => rw [hread]
  | undecoded hread hdecode => simp only [hread, hdecode]
  | empty hread hdecode hempty =>
    simp only [hread, hdecode, Picture.ofImage_of_empty hempty]
    rfl

theorem decode_cases [ImageLibrary] (folder : Folder) (path : String) :
    (∃ p, decode folder path = .ok (.ok p)) ∨ ∃ error, folder.Unshowable path error := by
  cases hread : folder.read path with
  | error reason => exact .inr ⟨_, .unread hread⟩
  | ok bytes =>
    cases hdecode : ImageLibrary.decode bytes with
    | error flaw => exact .inr ⟨_, .undecoded hread hdecode⟩
    | ok image =>
      by_cases hempty : image.width.toNat = 0 ∨ image.height.toNat = 0
      · exact .inr ⟨_, .empty hread hdecode hempty⟩
      · obtain ⟨hwidth, hheight⟩ := not_or.1 hempty
        obtain ⟨p, hp⟩ := Picture.exists_ofImage hwidth hheight
        exact .inl ⟨p, by simp only [decode, hread, hdecode, hp, Except.mapError]⟩

theorem exists_unshowable_iff [ImageLibrary] : (∃ error, folder.Unshowable path error) ↔
    ∀ p, decode folder path ≠ .ok (.ok p) := by
  constructor
  · rintro ⟨error, h⟩ p hp
    rw [decode_of_unshowable h] at hp
    cases hp
  · intro h
    rcases decode_cases folder path with ⟨p, hp⟩ | hnone
    · exact absurd hp (h p)
    · exact hnone

end ImageSequence

namespace Session

section Any

variable {π ς σ : Type} [Draws π] [Supplies ς] [Receives σ]

/-- The source or the processor of a session does not start. -/
inductive Unstarted (session : Session π ς σ) (folder : Folder) : Failure → Prop where
  | fault {fault : Fault} (hsource : Supplies.start session.source folder = .error fault) :
      Unstarted session folder (.fault fault)
  | source {error : Error} {source : ς} {log : Log}
      (hsource : Supplies.start session.source folder = .ok ⟨.error error, source, log⟩) :
      Unstarted session folder (.error error)
  | processor {error : Error} {source : ς} {processor : π} {log log' : Log}
      (hsource : Supplies.start session.source folder = .ok ⟨.ok (), source, log⟩)
      (hprocessor : Draws.start session.processor (Supplies.size source) =
        ⟨.error error, processor, log'⟩) : Unstarted session folder (.error error)

variable {session : Session π ς σ} {folder : Folder} {failure : Failure}

theorem Unstarted.exists_start_eq (h : session.Unstarted folder failure) :
    ∃ source processor log, session.start folder =
      ⟨.error failure, source, ⟨processor, session.sinks, folder, {}, log⟩⟩ := by
  cases h with
  | fault hsource =>
    refine ⟨session.source, session.processor, [], ?_⟩
    simp only [start, hsource]
  | @source _ source log hsource =>
    refine ⟨source, session.processor, [] ++ log, ?_⟩
    simp only [start, Studio.note, hsource]
  | @processor _ source processor log log' hsource hprocessor =>
    refine ⟨source, processor, [] ++ log ++ log', ?_⟩
    simp only [start, Studio.note, hsource, hprocessor]

theorem Unstarted.exists_run_eq (h : session.Unstarted folder failure) :
    ∃ source processor log, session.run folder =
      ⟨.error failure, source, ⟨processor, session.sinks, folder, {}, log⟩⟩ := by
  obtain ⟨source, processor, log, hstart⟩ := h.exists_start_eq
  exact ⟨source, processor, log, by simp only [run, hstart]⟩

end Any

variable {session : Session Processor Source Sink} {folder : Folder}

theorem unstarted_of_unshowable [Memory] [ImageLibrary] {q : ImageSequence} {path : String}
    {rest : List String} {error : Error} (hsource : session.source = .images q)
    (hpaths : q.paths = path :: rest) (h : folder.Unshowable path error) :
    session.Unstarted folder (.error error) := by
  have hdecode := ImageSequence.decode_of_unshowable h
  have hstart : Supplies.start session.source folder = .ok ⟨.error error, .images q, []⟩ := by
    simp only [Source.supplies_start, hsource, Source.start, ImageSequence.start, hpaths,
      List.head?_cons, hdecode, Source.lift]
  exact .source hstart

end Session

namespace Settings

/-- Rendering files cannot start: the settings are not valid, there is no input, or the first input
gives no picture. -/
inductive Unstarted [ImageLibrary] (s : Settings) (paths : List String) (folder : Folder) :
    Failure → Prop where
  | invalid {reason : String} (hfault : s.fault? = some reason) :
      Unstarted s paths folder (.refused reason)
  | inputless (hvalid : s.fault? = none) (hpaths : paths = []) :
      Unstarted s paths folder (.refused "No input images given")
  | unshowable {path : String} {rest : List String} {error : Error} (hvalid : s.fault? = none)
      (hpaths : paths = path :: rest) (hfirst : folder.Unshowable path error) :
      Unstarted s paths folder (.error error)

variable {s : Settings} {paths : List String} {folder : Folder}

theorem exists_unstarted_iff [ImageLibrary] : (∃ failure, s.Unstarted paths folder failure) ↔
    s.fault? ≠ none ∨ paths = [] ∨
      ∃ path ∈ paths.head?, ∀ p, ImageSequence.decode folder path ≠ .ok (.ok p) := by
  constructor
  · rintro ⟨failure, hfault | ⟨-, hpaths⟩ | ⟨-, rfl, hfirst⟩⟩
    · exact .inl (by simp [hfault])
    · exact .inr (.inl hpaths)
    · exact .inr (.inr ⟨_, rfl, ImageSequence.exists_unshowable_iff.1 ⟨_, hfirst⟩⟩)
  · intro h
    cases hfault : s.fault? with
    | some reason => exact ⟨_, .invalid hfault⟩
    | none =>
      rcases h.resolve_left (not_not.2 hfault) with hpaths | ⟨path, hpath, hnone⟩
      · exact ⟨_, .inputless hfault hpaths⟩
      · obtain ⟨rest, hpaths⟩ := List.head?_eq_some_iff.1 hpath
        obtain ⟨error, hfirst⟩ := ImageSequence.exists_unshowable_iff.2 hnone
        exact ⟨_, .unshowable hfault hpaths hfirst⟩

theorem Unstarted.renderFiles [Hypot] [Memory] [ImageLibrary] {failure : Failure}
    (h : s.Unstarted paths folder failure) (loops : Nat) (report : Option String) :
    ∃ log, s.renderFiles paths loops report folder = ⟨.error failure, folder, log⟩ := by
  cases h with
  | invalid hfault => exact ⟨[], by simp only [Settings.renderFiles, hfault]⟩
  | inputless hvalid hpaths =>
    exact ⟨[], by simp only [Settings.renderFiles, hvalid, hpaths, List.isEmpty_nil, if_true]⟩
  | unshowable hvalid hpaths hfirst =>
    have hne : paths ≠ [] := by simp [hpaths]
    obtain ⟨log, hrender⟩ := renderFiles_eq loops hvalid hne report
    have hunstarted : (s.session paths loops report).Unstarted folder _ :=
      Session.unstarted_of_unshowable rfl hpaths hfirst
    obtain ⟨_, _, _, hrun⟩ := hunstarted.exists_run_eq
    exact ⟨log, by rw [hrender, hrun]; rfl⟩

/-- Where settings are not valid, there is no input or the first input gives no picture, rendering
ends in the error that says so and leaves all files as they are, also those that it would have
written to. -/
theorem unstarted_keeps_files [Hypot] [Memory] [ImageLibrary] (s : Settings) (paths : List String)
    (loops : Nat) (report : Option String) (folder : Folder) :
    ((∃ failure, s.Unstarted paths folder failure) ↔ s.fault? ≠ none ∨ paths = [] ∨
      ∃ path ∈ paths.head?, ∀ p, ImageSequence.decode folder path ≠ .ok (.ok p)) ∧
    ∀ failure, s.Unstarted paths folder failure →
      ∃ log, s.renderFiles paths loops report folder = ⟨.error failure, folder, log⟩ :=
  ⟨exists_unstarted_iff, fun _ h => h.renderFiles loops report⟩

def flatFile : ByteArray :=
  ⟨#[0x50, 0x35, 0x20, 0x30, 0x20, 0x31, 0x20, 0x32, 0x35, 0x35, 0x20]⟩

open scoped Platform in
theorem unstarted_keeps_files_flat :
    let folder : Folder :=
      { files := [(["a"], flatFile), (["o"], ⟨#[9, 9, 9, 0]⟩), (["r"], "\x7b\x7d".toUTF8)] }
    ∃ error log, pair.renderFiles ["a"] 0 (some "r") folder = ⟨.error (.error error), folder, log⟩ ∧
      error.category = "validation" ∧ error.context = some "a" := by
  intro folder
  have hlocate : folder.locate "a" = .ok (.entry [] "a" false) := by cbv
  have hread : folder.read "a" = .ok flatFile :=
    Folder.read_of_file? hlocate (by decide) (by decide) rfl
  have hflat : (ImageLibrary.decode flatFile).toOption.map (·.width.toNat) = some 0 := by decide +kernel
  obtain ⟨image, himage, hwidth⟩ := Option.map_eq_some_iff.1 hflat
  have hfirst := Folder.Unshowable.empty hread (eq_ok_of_toOption himage) (.inl hwidth)
  have hunstarted : pair.Unstarted ["a"] folder _ := .unshowable (by decide +kernel) rfl hfirst
  obtain ⟨log, hrender⟩ := (unstarted_keeps_files pair ["a"] 0 (some "r") folder).2 _ hunstarted
  exact ⟨_, log, hrender, rfl, rfl⟩

end Settings

end VectorDisplay
