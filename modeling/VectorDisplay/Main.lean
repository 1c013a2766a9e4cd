import VectorDisplay.CommandLine
import VectorDisplay.CommandLine.Help
set_option autoImplicit false

namespace VectorDisplay

namespace Folder

def spell : Path → String
  | [] => "."
  | name :: rest =>
    if name = Path.root then Path.root ++ String.intercalate "/" rest
    else String.intercalate "/" (name :: rest)

def look (f : Folder) (p : Path) : IO Folder := do
  try
    return f.put p (← IO.FS.readBinFile (spell p))
  catch
    | .inappropriateType .. => return { f with directories := p :: f.directories }
    | _ => return f

def lookAlong (f : Folder) (text : String) : IO Folder := do
  let step (seen : Folder × Path) (name : String) : IO (Folder × Path) := do
    let there := seen.2.step name
    return (← seen.1.look there, there)
  return (← (Path.names text).foldlM step (f, Path.start text)).1

def save (f before : Folder) : IO Unit :=
  f.files.forM fun (p, content) => do
    unless (before.file? p).any (·.data == content.data) do
      IO.FS.writeBinFile (spell p) content

end Folder

namespace CommandLine

def Arguments.paths (a : Arguments) : List String := a.inputs ++ a.output :: a.report.toList

/-- The files that arguments speak of, as they are. -/
def survey (arguments : List String) : IO Folder :=
  match Arguments.read arguments with
  | .error _ => return {}
  | .ok a => a.paths.foldlM Folder.lookAlong {}

def line? (r : Record) : Option String :=
  match r.severity with
  | .error => some ("[ERROR] " ++ r.text)
  | .warning => some ("[WARN] " ++ r.text)
  | .info => some ("[INFO] " ++ r.text)
  | .debug => none

def announce : Exit → IO Unit
  | .usage .help => IO.println help
  | .usage error => do
    IO.eprintln error.message
    IO.eprintln usage
  | .failure (.fault _) => IO.eprintln "The run was given up"
  | exit => do
    exit.message?.toList.forM fun text => IO.eprintln text

def execute (arguments : List String) : IO UInt32 := do
  let before ← survey arguments
  let ended := run arguments before
  (ended.log.filterMap line?).forM IO.eprintln
  ended.folder.save before
  announce ended.exit
  return UInt32.ofNat ended.exit.code

end CommandLine

end VectorDisplay

def main (arguments : List String) : IO UInt32 := VectorDisplay.CommandLine.execute arguments
