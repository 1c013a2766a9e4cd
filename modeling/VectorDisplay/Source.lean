import VectorDisplay.Folder
import VectorDisplay.Image
import VectorDisplay.Processor
/-!
Sources of pictures: image files shown in order and over again, pictures that are at hand, or whatever
else supplies them. Every source comes to an end, if only because passes are counted in a 32-bit word;
`Supplies.ahead` bounds the pictures that are still to come.
-/

set_option autoImplicit false

namespace VectorDisplay

/-- Sources of some type, each of which comes to an end. -/
class Supplies (ς : Type) where
  start : ς → Folder → Checked (Reply ς Unit)
  size : ς → Size
  /-- The next picture; none after the last. -/
  next : ς → Folder → Checked (Reply ς (Option Picture))
  stop : ς → Folder → Reply ς Unit
  ahead : ς → Nat
  ahead_next {s : ς} {folder : Folder} {r : Reply ς (Option Picture)} {p : Picture} :
    next s folder = .ok r → r.result = .ok (some p) → ahead r.state < ahead s

/-- Image files, shown in order. -/
structure ImageSequence where
  paths : List String
  /-- Passes over the files; zero is without end. -/
  loops : Nat := 1
  pass : Nat := 0
  position : Nat := 0
  size : Size := {}
  shown : Nat := 0
  interval : Option Nat := none

structure PictureList where
  pictures : List Picture
  size : Size

inductive Source where
  | images (source : ImageSequence)
  | pictures (source : PictureList)

namespace ImageSequence

def ofPaths (paths : List String) : ImageSequence := { paths }

def withRate (s : ImageSequence) (perSecond : Nat) : ImageSequence :=
  { s with interval := if perSecond = 0 then none else some (1000000000 / perSecond) }

variable [ImageLibrary]

def decode (folder : Folder) (path : String) : Checked (Except Error Picture) :=
  match folder.read path with
  | .error error => .ok (.error (.of (.io "image_read" path error.message)))
  | .ok bytes =>
    match ImageLibrary.decode bytes with
    | .error undecoded => .ok (.error (.of (undecoded.cause path)))
    | .ok image =>
      match Picture.ofImage image with
      | .error fault => .error fault
      | .ok result => .ok (result.mapError fun error => error.during path)

def passLimit : Nat := 0x1_0000_0000

def ahead (s : ImageSequence) : Nat :=
  (passLimit - s.pass) * (s.paths.length + 1) + (s.paths.length - s.position)

def nextTime (s : ImageSequence) : Checked (Option Nat) :=
  match s.interval with
  | none => .ok none
  | some interval =>
    match VectorDisplay.word (s.shown * interval) with
    | .error fault => .error fault
    | .ok time => .ok (some time)

def present (s : ImageSequence) (folder : Folder) :
    Checked (Reply ImageSequence (Option Picture)) :=
  match s.paths[s.position]? with
  | none => .ok ⟨.ok none, s, []⟩
  | some path =>
    match decode folder path with
    | .error fault => .error fault
    | .ok (.error error) => .ok ⟨.error error, s, []⟩
    | .ok (.ok picture) =>
      match s.nextTime with
      | .error fault => .error fault
      | .ok time =>
        match VectorDisplay.word (s.shown + 1) with
        | .error fault => .error fault
        | .ok shown =>
          .ok ⟨.ok (some { picture with time := time }),
            { s with position := s.position + 1, shown }, []⟩

/-- The next picture; none after the last pass. -/
def next (s : ImageSequence) (folder : Folder) : Checked (Reply ImageSequence (Option Picture)) :=
  if s.paths.length ≤ s.position then
    if s.pass + 1 < passLimit then
      let s := { s with pass := s.pass + 1 }
      if s.paths.isEmpty || (s.loops ≠ 0 && s.loops ≤ s.pass) then .ok ⟨.ok none, s, []⟩
      else present { s with position := 0 } folder
    else .error .overflow
  else present s folder

theorem ahead_present {s : ImageSequence} {folder : Folder}
    {r : Reply ImageSequence (Option Picture)} {p : Picture} (h : s.present folder = .ok r)
    (hp : r.result = .ok (some p)) :
    r.state.ahead < s.ahead := by
  unfold present at h
  split at h
  · cases h; simp at hp
  · next path hpath =>
    have hlt : s.position < s.paths.length := (List.getElem?_eq_some_iff.1 hpath).1
    split at h
    · cases h
    · cases h; simp at hp
    · split at h
      · cases h
      · split at h
        · cases h
        · cases h
          simp only [ahead]
          omega

theorem ahead_next {s : ImageSequence} {folder : Folder} {r : Reply ImageSequence (Option Picture)}
    {p : Picture} (h : s.next folder = .ok r) (hp : r.result = .ok (some p)) :
    r.state.ahead < s.ahead := by
  unfold next at h
  split at h
  · split at h
    · next hpass =>
      dsimp only at h
      split at h
      · cases h; simp at hp
      · have hlt := ahead_present h hp
        refine Nat.lt_of_lt_of_le hlt ?_
        have hs : passLimit - s.pass = (passLimit - (s.pass + 1)) + 1 := by omega
        simp only [ahead, hs, Nat.succ_mul]
        omega
    · cases h
  · exact ahead_present h hp

def start (s : ImageSequence) (folder : Folder) : Checked (Reply ImageSequence Unit) :=
  match s.paths.head? with
  | none =>
    .ok ⟨.error (.of (.config "inputs" "[]" "at least one input image is required")), s, []⟩
  | some path =>
    match decode folder path with
    | .error fault => .error fault
    | .ok (.error error) => .ok ⟨.error error, s, []⟩
    | .ok (.ok picture) =>
      let size : Size := ⟨picture.width, picture.height⟩
      .ok ⟨.ok (), { s with size },
        [.info ("image sequence: " ++ toString s.paths.length ++ " files, " ++ size.text ++
          ", loops " ++ toString s.loops)]⟩

end ImageSequence

namespace PictureList

def ofList (pictures : List Picture) : PictureList where
  pictures
  size := match pictures.head? with
    | none => {}
    | some p => ⟨p.width, p.height⟩

/-- The next picture; none after the last. -/
def next (s : PictureList) : Reply PictureList (Option Picture) :=
  ⟨.ok s.pictures.head?, { s with pictures := s.pictures.tail }, []⟩

end PictureList

namespace Source

variable [ImageLibrary]

def size : Source → Size
  | images s => s.size
  | pictures s => s.size

def ahead : Source → Nat
  | images s => s.ahead
  | pictures s => s.pictures.length

def lift {σ α : Type} (f : σ → Source) (r : Reply σ α) : Reply Source α :=
  ⟨r.result, f r.state, r.log⟩

def start (s : Source) (folder : Folder) : Checked (Reply Source Unit) :=
  match s with
  | images s =>
    match s.start folder with
    | .error fault => .error fault
    | .ok reply => .ok (lift images reply)
  | pictures s => .ok ⟨.ok (), pictures s, []⟩

def next (s : Source) (folder : Folder) : Checked (Reply Source (Option Picture)) :=
  match s with
  | images s =>
    match s.next folder with
    | .error fault => .error fault
    | .ok reply => .ok (lift images reply)
  | pictures s => .ok (lift pictures s.next)

theorem ahead_next {s : Source} {folder : Folder} {r : Reply Source (Option Picture)} {p : Picture}
    (h : s.next folder = .ok r) (hp : r.result = .ok (some p)) : r.state.ahead < s.ahead := by
  cases s with
  | images s =>
    simp only [next] at h
    split at h
    · cases h
    · next reply hreply =>
      cases h
      exact ImageSequence.ahead_next hreply hp
  | pictures s =>
    simp only [next, Except.ok.injEq] at h
    subst h
    simp only [lift, PictureList.next, Except.ok.injEq] at hp
    have hne : s.pictures ≠ [] := by intro h0; simp [h0] at hp
    have hpos := List.length_pos_iff.2 hne
    simp only [lift, PictureList.next, ahead, List.length_tail]
    omega

def stop (s : Source) (_ : Folder) : Reply Source Unit := ⟨.ok (), s, []⟩

instance : Supplies Source := ⟨start, size, next, stop, ahead, ahead_next⟩

@[simp] theorem supplies_start :
    (Supplies.start : Source → Folder → Checked (Reply Source Unit)) = start := rfl

@[simp] theorem supplies_size : (Supplies.size : Source → Size) = size := rfl

@[simp] theorem supplies_next :
    (Supplies.next : Source → Folder → Checked (Reply Source (Option Picture))) = next := rfl

end Source

end VectorDisplay
