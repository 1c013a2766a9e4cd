import VectorDisplay.CommandLine.Arguments
import VectorDisplay.Platform
import VectorDisplay.Session
set_option autoImplicit false

namespace VectorDisplay

attribute [instance] Platform.root Platform.heap Platform.netpbm

namespace CommandLine

inductive Exit where
  | success
  | usage (error : UsageError)
  | failure (failure : Failure)
  deriving DecidableEq, Repr

namespace Exit

def code : Exit → Nat
  | success => 0
  | usage .help => 0
  | usage _ => 2
  | failure (.fault _) => 101
  | failure _ => 1

def causes : List String → String
  | [] => ""
  | [text] => "\n\nCaused by:\n    " ++ text
  | texts =>
    "\n\nCaused by:" ++
      String.join (texts.mapIdx fun i text => "\n    " ++ toString i ++ ": " ++ text)

/-- What the program says about a failure: its text, and those of the failures below it. -/
def message? : Exit → Option String
  | failure (.error e) => some ("Error: " ++ e.message ++ causes e.cause.sources)
  | failure (.refused text) => some ("Error: " ++ text)
  | _ => none

end Exit

def Arguments.settings (a : Arguments) : Except String Settings := do
  let (width, height) ← readSize a.resolution
  let (columns, rows) ← readSize a.scan
  let (low, high) ← readPair Numeral.float32? a.thresholds "Canny thresholds"
  let park ← readPair byte? a.park "park position"
  return {
    output := a.output
    width := width
    height := height
    mode := a.mode
    speed := a.speed
    dark := a.dark
    minLength := a.minLength
    dither := a.dither
    ordering := a.ordering
    columns := columns
    rows := rows
    edges := if a.edges then some (.ordered low high) else none
    threshold := a.threshold
    park := park }

def closing (s : Settings) (summary : Summary) : Log :=
  [.info ("wrote " ++ toString summary.frames ++ " frames (" ++ toString summary.samples ++
    " samples) to '" ++ s.output ++ "'")] ++
  if summary.cut = 0 then []
  else [.warning (toString summary.cut ++ " frames were truncated")]

structure Ended where
  exit : Exit
  folder : Folder
  log : Log := []

def run (arguments : List String) (folder : Folder) : Ended :=
  match Arguments.read arguments with
  | .error error => ⟨.usage error, folder, []⟩
  | .ok a =>
    match a.settings with
    | .error text => ⟨.failure (.refused text), folder, []⟩
    | .ok settings =>
      let run := settings.renderFiles a.inputs a.loops.toNat a.report folder
      match run.result with
      | .error failure => ⟨.failure failure, run.folder, run.log⟩
      | .ok summary => ⟨.success, run.folder, run.log ++ closing settings summary⟩

end CommandLine

end VectorDisplay
