/-!
A folder of files, seen from a working directory. A path is a list of names; empty names and single
dots count for nothing, and two dots lead to the directory above. A text is followed name by name, and
every directory on the way must be there. The working directory and those above it always are.
Files are written through a writer, which stands at a place of its file and holds small writes back
until it is flushed.
-/

set_option autoImplicit false

namespace VectorDisplay

inductive PathError where
  | notFound
  | notDirectory
  | isDirectory
  | tooLong
  | zeroCharacter
  deriving DecidableEq, Repr

def PathError.message : PathError → String
  | notFound => "No such file or directory (os error 2)"
  | notDirectory => "Not a directory (os error 20)"
  | isDirectory => "Is a directory (os error 21)"
  | tooLong => "File name too long (os error 36)"
  | zeroCharacter => "file name contained an unexpected NUL byte"

/-- The names on the way to a file from the working directory, or from the root. Names for the
directory above come first, if at all. -/
abbrev Path := List String

namespace Path

def root : String := "/"

def above : String := ".."

def isDots (name : String) : Bool := name = "." || name = above

def isAbove (p : Path) : Bool := p.all (· = above)

def up (p : Path) : Path :=
  if p.isAbove then p ++ [above] else if p = [root] then p else p.dropLast

def step (p : Path) (name : String) : Path :=
  if name = "." then p else if name = above then p.up else p ++ [name]

def names (text : String) : List String := (text.splitOn "/").filter (· ≠ "")

def start (text : String) : Path := if text.startsWith "/" then [root] else []

def ofText (text : String) : Path := (names text).foldl step (start text)

def nameLimit : Nat := 255

def textLimit : Nat := 4096

def isLong (name : String) : Bool := nameLimit < name.utf8ByteSize

end Path

inductive Target where
  | directory
  | entry (inside : Path) (name : String) (slash : Bool)

structure Folder where
  files : List (Path × ByteArray) := []
  directories : List Path := []

namespace Folder

def file? (f : Folder) (p : Path) : Option ByteArray := f.files.lookup p

def isDirectory (f : Folder) (p : Path) : Bool :=
  p.isAbove || p = [Path.root] || f.directories.contains p

def put (f : Folder) (p : Path) (content : ByteArray) : Folder :=
  if f.files.any (·.1 = p) then
    { f with files := f.files.map fun entry => if entry.1 = p then (p, content) else entry }
  else { f with files := f.files ++ [(p, content)] }

def enter (f : Folder) (here : Path) (name : String) : Except PathError Path :=
  if Path.isDots name then .ok (here.step name)
  else if Path.isLong name then .error .tooLong
  else if f.isDirectory (here ++ [name]) then .ok (here ++ [name])
  else if (f.file? (here ++ [name])).isSome then .error .notDirectory
  else .error .notFound

def walk (f : Folder) : Path → List String → Except PathError Path
  | here, [] => .ok here
  | here, name :: rest =>
    match f.enter here name with
    | .error error => .error error
    | .ok here => f.walk here rest

/-- What a text names; its last name need not be there. -/
def locate (f : Folder) (text : String) : Except PathError Target :=
  if text.toList.contains (Char.ofNat 0) then .error .zeroCharacter
  else if text = "" then .error .notFound
  else if Path.textLimit ≤ text.utf8ByteSize then .error .tooLong
  else
    let names := Path.names text
    match names.getLast? with
    | none => .ok .directory
    | some last =>
      match f.walk (Path.start text) names.dropLast with
      | .error error => .error error
      | .ok here =>
        .ok (if Path.isDots last then .directory else .entry here last (text.endsWith "/"))

def read (f : Folder) (text : String) : Except PathError ByteArray :=
  match f.locate text with
  | .error error => .error error
  | .ok .directory => .error .isDirectory
  | .ok (.entry inside name slash) =>
    if Path.isLong name then .error .tooLong
    else if f.isDirectory (inside ++ [name]) then .error .isDirectory
    else match f.file? (inside ++ [name]) with
      | none => .error .notFound
      | some content => if slash then .error .notDirectory else .ok content

def create (f : Folder) (text : String) : Except PathError (Path × Folder) :=
  match f.locate text with
  | .error error => .error error
  | .ok .directory => .error .isDirectory
  | .ok (.entry inside name slash) =>
    if slash then .error .isDirectory
    else if Path.isLong name then .error .tooLong
    else if f.isDirectory (inside ++ [name]) then .error .isDirectory
    else .ok (inside ++ [name], f.put (inside ++ [name]) .empty)

/-- Content with bytes written over it from a place on; a gap before the place is zero. -/
def overwrite (content : ByteArray) (start : Nat) (bytes : ByteArray) : ByteArray :=
  let before := content.extract 0 start
  let gap : ByteArray := ⟨Array.replicate (start - before.size) 0⟩
  before ++ gap ++ bytes ++ content.extract (start + bytes.size) content.size

def writeAt (f : Folder) (p : Path) (start : Nat) (bytes : ByteArray) : Folder :=
  f.put p (overwrite ((f.file? p).getD .empty) start bytes)

end Folder

/-- A place in a file, with what is still to be written there. -/
structure Writer where
  path : Path
  place : Nat := 0
  held : ByteArray := .empty

namespace Writer

def limit : Nat := 8192

def pass (w : Writer) (bytes : ByteArray) (f : Folder) : Writer × Folder :=
  ({ w with place := w.place + bytes.size }, f.writeAt w.path w.place bytes)

def flush (w : Writer) (f : Folder) : Writer × Folder :=
  if w.held.isEmpty then (w, f) else { w with held := .empty }.pass w.held f

def write (w : Writer) (bytes : ByteArray) (f : Folder) : Writer × Folder :=
  let (w, f) := if limit < w.held.size + bytes.size then w.flush f else (w, f)
  if limit ≤ bytes.size then w.pass bytes f else ({ w with held := w.held ++ bytes }, f)

end Writer

end VectorDisplay
