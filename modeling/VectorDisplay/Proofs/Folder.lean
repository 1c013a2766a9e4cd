import VectorDisplay.Folder
/-!
Files that are written while others are read. A folder `Extends` another outside some paths if it
has the same directories and the same files everywhere else; what could be read there can be read
still. A writer `Holds` what was written through it: some of it in the file, the rest held back.
-/

set_option autoImplicit false

namespace VectorDisplay

namespace Folder

theorem file?_put_self (f : Folder) (p : Path) (content : ByteArray) :
    (f.put p content).file? p = some content := by
  unfold put file?
  split
  · next hany =>
    dsimp only
    generalize f.files = files at hany
    induction files with
    | nil => simp at hany
    | cons entry rest ih =>
      obtain ⟨q, c⟩ := entry
      by_cases hq : q = p
      · simp [hq]
      · have hrest : rest.any (·.1 = p) = true := by simpa [hq] using hany
        have hne : (p == q) = false := by simpa using fun h => hq h.symm
        rw [List.map_cons, if_neg hq, List.lookup_cons, hne]
        exact ih hrest
  · next hany =>
    have hnone : f.files.lookup p = none := by
      rw [List.lookup_eq_none_iff]
      intro entry hentry
      simp only [List.any_eq_true, decide_eq_true_eq, not_exists, not_and] at hany
      simpa using fun h => hany entry hentry h.symm
    simp [List.lookup_append, hnone]

theorem file?_put_of_ne (f : Folder) {p q : Path} (content : ByteArray) (h : q ≠ p) :
    (f.put p content).file? q = f.file? q := by
  have hne : (q == p) = false := by simpa using h
  unfold put file?
  split
  · dsimp only
    induction f.files with
    | nil => rfl
    | cons entry rest ih =>
      obtain ⟨r, c⟩ := entry
      by_cases hr : r = p
      · subst hr
        simp [List.lookup_cons, hne, ih]
      · simp [List.lookup_cons, hr, ih]
  · simp [List.lookup_append, List.lookup_cons, hne]

def resolve (f : Folder) (text : String) : Option Path :=
  match f.locate text with
  | .ok (.entry inside name _) => some (inside ++ [name])
  | _ => none

/-- Nothing but the files at some paths was changed. -/
structure Extends (f g : Folder) (changed : List Path) : Prop where
  directories_eq : g.directories = f.directories
  file?_eq {p : Path} : p ∉ changed → g.file? p = f.file? p

namespace Extends

variable {f g h : Folder} {changed : List Path}

theorem refl (f : Folder) (changed : List Path) : Extends f f changed := ⟨rfl, fun _ => rfl⟩

theorem trans (hfg : Extends f g changed) (hgh : Extends g h changed) : Extends f h changed :=
  ⟨hgh.directories_eq.trans hfg.directories_eq,
    fun hp => (hgh.file?_eq hp).trans (hfg.file?_eq hp)⟩

theorem mono {changed' : List Path} (hfg : Extends f g changed) (hsub : changed ⊆ changed') :
    Extends f g changed' :=
  ⟨hfg.directories_eq, fun hp => hfg.file?_eq fun hmem => hp (hsub hmem)⟩

theorem put (hfg : Extends f g changed) {p : Path} (hp : p ∈ changed) (content : ByteArray) :
    Extends f (g.put p content) changed where
  directories_eq := by
    rw [← hfg.directories_eq]
    unfold Folder.put
    split <;> rfl
  file?_eq := by
    intro q hq
    have hne : q ≠ p := fun heq => hq (heq ▸ hp)
    rw [file?_put_of_ne g content hne]
    exact hfg.file?_eq hq

theorem isDirectory_eq (hfg : Extends f g changed) (p : Path) :
    g.isDirectory p = f.isDirectory p := by
  simp only [isDirectory, hfg.directories_eq]

theorem enter_eq (hfg : Extends f g changed) {here there : Path} {name : String}
    (hok : f.enter here name = .ok there) : g.enter here name = .ok there := by
  unfold enter at hok ⊢
  rw [hfg.isDirectory_eq]
  by_cases hdots : Path.isDots name = true
  · rw [if_pos hdots] at hok ⊢
    exact hok
  · rw [if_neg hdots] at hok ⊢
    by_cases hlong : Path.isLong name = true
    · rw [if_pos hlong] at hok
      cases hok
    · rw [if_neg hlong] at hok ⊢
      by_cases hdirectory : f.isDirectory (here ++ [name]) = true
      · rw [if_pos hdirectory] at hok ⊢
        exact hok
      · rw [if_neg hdirectory] at hok
        split at hok <;> cases hok

theorem walk_eq (hfg : Extends f g changed) {here there : Path} {names : List String}
    (hok : f.walk here names = .ok there) : g.walk here names = .ok there := by
  induction names generalizing here with
  | nil => exact hok
  | cons name rest ih =>
    unfold walk at hok ⊢
    split at hok
    · cases hok
    · next next hnext =>
      rw [hfg.enter_eq hnext]
      exact ih hok

theorem locate_eq (hfg : Extends f g changed) {text : String} {target : Target}
    (hok : f.locate text = .ok target) : g.locate text = .ok target := by
  unfold locate at hok ⊢
  by_cases hzero : text.toList.contains (Char.ofNat 0) = true
  · rw [if_pos hzero] at hok
    cases hok
  · rw [if_neg hzero] at hok ⊢
    by_cases hempty : text = ""
    · rw [if_pos hempty] at hok
      cases hok
    · rw [if_neg hempty] at hok ⊢
      by_cases hlong : Path.textLimit ≤ text.utf8ByteSize
      · rw [if_pos hlong] at hok
        cases hok
      · rw [if_neg hlong] at hok ⊢
        dsimp only at hok ⊢
        split at hok
        · exact hok
        · split at hok
          · cases hok
          · next hwalk =>
            rw [hfg.walk_eq hwalk]
            exact hok

end Extends

theorem read_eq_ok {f : Folder} {text : String} {content : ByteArray}
    (hok : f.read text = .ok content) :
    ∃ inside name, f.locate text = .ok (.entry inside name false) ∧
      Path.isLong name = false ∧ f.isDirectory (inside ++ [name]) = false ∧
      f.file? (inside ++ [name]) = some content := by
  unfold read at hok
  split at hok
  · cases hok
  · cases hok
  · next inside name slash hlocate =>
    split at hok
    · cases hok
    · next hlong =>
      split at hok
      · cases hok
      · next hdirectory =>
        split at hok
        · cases hok
        · next found hfile =>
          cases slash with
          | true => cases hok
          | false =>
            cases hok
            exact ⟨inside, name, hlocate, Bool.eq_false_iff.2 hlong,
              Bool.eq_false_iff.2 hdirectory, hfile⟩

theorem read_of_file? {f : Folder} {text : String} {inside : Path} {name : String}
    {content : ByteArray} (hlocate : f.locate text = .ok (.entry inside name false))
    (hlong : Path.isLong name = false) (hdirectory : f.isDirectory (inside ++ [name]) = false)
    (hfile : f.file? (inside ++ [name]) = some content) : f.read text = .ok content := by
  simp [read, hlocate, hlong, hdirectory, hfile]

theorem Extends.read_eq {f g : Folder} {changed : List Path} (hfg : Extends f g changed)
    {text : String} {content : ByteArray} (hok : f.read text = .ok content)
    (hother : ∀ p ∈ changed, f.resolve text ≠ some p) : g.read text = .ok content := by
  obtain ⟨inside, name, hlocate, hlong, hdirectory, hfile⟩ := read_eq_ok hok
  have hpath : inside ++ [name] ∉ changed := by
    intro hmem
    exact hother _ hmem (by simp [resolve, hlocate])
  exact read_of_file? (hfg.locate_eq hlocate) hlong (by rw [hfg.isDirectory_eq, hdirectory])
    (by rw [hfg.file?_eq hpath, hfile])

theorem create_eq_ok {f g : Folder} {text : String} {p : Path}
    (hok : f.create text = .ok (p, g)) :
    ∃ inside name, f.locate text = .ok (.entry inside name false) ∧
      Path.isLong name = false ∧ f.isDirectory (inside ++ [name]) = false ∧
      p = inside ++ [name] ∧ g = f.put p .empty := by
  unfold create at hok
  split at hok
  · cases hok
  · cases hok
  · next inside name slash hlocate =>
    cases slash with
    | true => cases hok
    | false =>
      split at hok
      · next hslash => cases hslash
      · split at hok
        · cases hok
        · next hlong =>
          split at hok
          · cases hok
          · next hdirectory =>
            cases hok
            exact ⟨inside, name, hlocate, Bool.eq_false_iff.2 hlong,
              Bool.eq_false_iff.2 hdirectory, rfl, rfl⟩

theorem resolve_of_create {f g : Folder} {text : String} {p : Path}
    (hok : f.create text = .ok (p, g)) : f.resolve text = some p := by
  obtain ⟨inside, name, hlocate, -, -, rfl, -⟩ := create_eq_ok hok
  simp [resolve, hlocate]

theorem Extends.create_eq {f g f' : Folder} {changed : List Path} (hfg : Extends f g changed)
    {text : String} {p : Path} (hok : f.create text = .ok (p, f')) :
    g.create text = .ok (p, g.put p .empty) := by
  obtain ⟨inside, name, hlocate, hlong, hdirectory, rfl, rfl⟩ := create_eq_ok hok
  rw [← hfg.isDirectory_eq] at hdirectory
  simp [create, hfg.locate_eq hlocate, hlong, hdirectory]

theorem Extends.read_created {f g f' : Folder} {changed : List Path} (hfg : Extends f g changed)
    {text : String} {p : Path} {content : ByteArray} (hok : f.create text = .ok (p, f'))
    (hfile : g.file? p = some content) : g.read text = .ok content := by
  obtain ⟨inside, name, hlocate, hlong, hdirectory, rfl, -⟩ := create_eq_ok hok
  rw [← hfg.isDirectory_eq] at hdirectory
  exact read_of_file? (hfg.locate_eq hlocate) hlong hdirectory hfile

end Folder

namespace Writer

open Folder

/-- All that was written through a writer. -/
structure Holds (w : Writer) (f : Folder) (written : ByteArray) : Prop where
  exists_file : ∃ content, f.file? w.path = some content ∧ content.size = w.place ∧
    content ++ w.held = written

theorem overwrite_size (content bytes : ByteArray) :
    overwrite content content.size bytes = content ++ bytes := by
  have hgap : (⟨Array.replicate (content.size - content.size) 0⟩ : ByteArray) = .empty := by
    rw [Nat.sub_self]
    rfl
  have hrest : content.extract (content.size + bytes.size) content.size = .empty := by
    apply ByteArray.ext_getElem
    · simp
    · intro i hi
      simp at hi
  simp only [overwrite, ByteArray.extract_zero_size, hgap, hrest, ByteArray.append_empty]

theorem overwrite_start {content bytes : ByteArray} (h : content.size ≤ bytes.size) :
    overwrite content 0 bytes = bytes := by
  have hnone : content.extract 0 0 = .empty := ByteArray.ext_getElem (by simp) (by simp)
  have hgap : (⟨Array.replicate (0 - ByteArray.empty.size) 0⟩ : ByteArray) = .empty := rfl
  have hrest : content.extract bytes.size content.size = .empty := by
    apply ByteArray.ext_getElem
    · simp
      omega
    · intro i hi
      simp at hi
      omega
  simp only [overwrite, Nat.zero_add, hnone, hgap, hrest, ByteArray.empty_append,
    ByteArray.append_empty]

theorem file?_writeAt_start {f : Folder} {p : Path} {content bytes : ByteArray}
    (hfile : f.file? p = some content) (hsize : content.size ≤ bytes.size) :
    (f.writeAt p 0 bytes).file? p = some bytes := by
  rw [writeAt, hfile, Option.getD_some, overwrite_start hsize]
  exact file?_put_self f p bytes

variable {w : Writer} {f : Folder} {written : ByteArray}

theorem flush_of_held (h : w.held.size ≠ 0) (f : Folder) :
    (w.flush f).2 = f.writeAt w.path w.place w.held := by
  rw [flush, if_neg (by simpa only [ByteArray.isEmpty, beq_iff_eq] using h)]
  rfl

@[simp] theorem path_pass (w : Writer) (bytes : ByteArray) (f : Folder) :
    (w.pass bytes f).1.path = w.path := rfl

@[simp] theorem path_flush (w : Writer) (f : Folder) : (w.flush f).1.path = w.path := by
  unfold flush
  split <;> rfl

@[simp] theorem path_write (w : Writer) (bytes : ByteArray) (f : Folder) :
    (w.write bytes f).1.path = w.path := by
  unfold write
  dsimp only
  split <;> split <;> simp

theorem extends_pass (w : Writer) (bytes : ByteArray) {f g : Folder} {changed : List Path}
    (hfg : Extends f g changed) (hp : w.path ∈ changed) :
    Extends f (w.pass bytes g).2 changed := hfg.put hp _

theorem extends_flush (w : Writer) {f g : Folder} {changed : List Path}
    (hfg : Extends f g changed) (hp : w.path ∈ changed) : Extends f (w.flush g).2 changed := by
  unfold flush
  split
  · exact hfg
  · exact extends_pass _ _ hfg hp

theorem extends_write (w : Writer) (bytes : ByteArray) {f g : Folder} {changed : List Path}
    (hfg : Extends f g changed) (hp : w.path ∈ changed) :
    Extends f (w.write bytes g).2 changed := by
  have hflushed := extends_flush w hfg hp
  by_cases hover : limit < w.held.size + bytes.size <;> by_cases hlarge : limit ≤ bytes.size
  · simp only [write, hover, hlarge, if_true]
    exact extends_pass _ _ hflushed (by simpa using hp)
  · simpa only [write, hover, hlarge, if_true, if_false] using hflushed
  · simp only [write, hover, hlarge, if_true, if_false]
    exact extends_pass _ _ hfg hp
  · simpa only [write, hover, hlarge, if_false] using hfg

theorem held_eq_empty (hsize : w.held.size = 0) : w.held = .empty :=
  ByteArray.ext_getElem hsize fun i hi => absurd hi (by omega)

theorem Holds.pass (h : Holds w f written) (hheld : w.held = .empty) (bytes : ByteArray) :
    Holds (w.pass bytes f).1 (w.pass bytes f).2 (written ++ bytes) := by
  obtain ⟨content, hfile, hsize, hwritten⟩ := h.exists_file
  refine ⟨content ++ bytes, ?_, ?_, ?_⟩
  · simp only [Writer.pass, writeAt, hfile, Option.getD_some, ← hsize, overwrite_size]
    exact file?_put_self _ _ _
  · simp [Writer.pass, hsize]
  · simp [Writer.pass, hheld, ← hwritten]

theorem Holds.flush (h : Holds w f written) :
    Holds (w.flush f).1 (w.flush f).2 written ∧ (w.flush f).1.held = .empty := by
  unfold Writer.flush
  split
  · next hempty =>
    have hsize : w.held.size = 0 := by simpa [ByteArray.isEmpty] using hempty
    exact ⟨h, held_eq_empty hsize⟩
  · obtain ⟨content, hfile, hsize, hwritten⟩ := h.exists_file
    have hemptied : Holds { w with held := .empty } f content := ⟨content, hfile, hsize, by simp⟩
    exact ⟨hwritten ▸ hemptied.pass rfl w.held, rfl⟩

theorem Holds.hold {w : Writer} {f : Folder} (h : Holds w f written) (bytes : ByteArray) :
    Holds { w with held := w.held ++ bytes } f (written ++ bytes) := by
  obtain ⟨content, hfile, hsize, hwritten⟩ := h.exists_file
  exact ⟨content, hfile, hsize, by rw [← hwritten, ByteArray.append_assoc]⟩

theorem Holds.write (h : Holds w f written) (bytes : ByteArray) :
    Holds (w.write bytes f).1 (w.write bytes f).2 (written ++ bytes) := by
  obtain ⟨hflushed, hheld⟩ := h.flush
  by_cases hover : limit < w.held.size + bytes.size <;> by_cases hlarge : limit ≤ bytes.size
  · simpa only [Writer.write, hover, hlarge, if_true] using hflushed.pass hheld bytes
  · simpa only [Writer.write, hover, hlarge, if_true, if_false] using hflushed.hold bytes
  · have hempty := held_eq_empty (w := w) (by omega)
    simpa only [Writer.write, hover, hlarge, if_true, if_false] using h.pass hempty bytes
  · simpa only [Writer.write, hover, hlarge, if_false] using h.hold bytes

theorem Holds.file?_flush (h : Holds w f written) : (w.flush f).2.file? w.path = some written := by
  obtain ⟨hflushed, hheld⟩ := h.flush
  obtain ⟨content, hfile, -, hwritten⟩ := hflushed.exists_file
  rw [path_flush] at hfile
  rw [hfile, ← hwritten, hheld, ByteArray.append_empty]

/-- Writing to other files leaves what is held as it was. -/
theorem Holds.of_extends (h : Holds w f written) {g : Folder} {changed : List Path}
    (hfg : Extends f g changed) (hp : w.path ∉ changed) : Holds w g written := by
  obtain ⟨content, hfile, hsize, hwritten⟩ := h.exists_file
  exact ⟨content, (hfg.file?_eq hp).trans hfile, hsize, hwritten⟩

end Writer

end VectorDisplay
