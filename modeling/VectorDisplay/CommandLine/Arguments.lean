import VectorDisplay.CommandLine.Values
import VectorDisplay.Settings
/-!
The arguments of the program. Options have a long name, some a short one; a value follows in the
next argument or is attached, with an equals sign or, to a short name, directly. After `--` every
argument is an input. A value is read when the next option or input arrives, or at the end, so of two
mistakes the one that is noticed first counts.
-/

set_option autoImplicit false

namespace VectorDisplay

namespace CommandLine

inductive UsageError where
  | missingInput
  | invalidValue
  | invalidNumber
  | unknownArgument
  | conflict
  | needlessValue
  | help
  deriving DecidableEq, Repr

structure Arguments where
  inputs : List String := []
  output : String := "vector.bin"
  mode : Mode := .contour
  resolution : String := "800x600"
  speed : Float := 0.0
  dark : Float := 0.0
  minLength : Nat := 3
  dither : Bool := false
  ordering : DrawingOrder := .traced
  edges : Bool := true
  thresholds : String := "128,130"
  threshold : UInt8 := 0
  scan : String := "512x256"
  park : String := "0,0"
  loops : UInt32 := 1
  report : Option String := none

inductive Opt where
  | output | mode | resolution | speed | dark | minLength | dither | ordering | edges | thresholds
  | threshold | scan | park | loops | report | help
  deriving DecidableEq, Repr

namespace Opt

def ofLong? (name : String) : Option Opt :=
  [("output", output), ("mode", mode), ("resolution", resolution), ("move-speed", speed),
    ("blank-fraction", dark), ("min-length", minLength), ("dither", dither),
    ("ordering", ordering), ("edges", edges), ("canny", thresholds), ("threshold", threshold),
    ("scan", scan), ("park", park), ("loops", loops), ("report", report), ("help", help)].lookup name

def ofShort? (name : Char) : Option Opt :=
  [('o', output), ('m', mode), ('r', resolution), ('l', loops), ('h', help)].lookup name

def takesValue : Opt → Bool
  | dither => false
  | help => false
  | _ => true

def signedNat? (limit : Nat) (value : List Char) : Option Nat :=
  match signed? value with
  | none => none
  | some i => if 0 ≤ i ∧ i < limit then some i.toNat else none

def store (o : Opt) (value : String) (a : Arguments) : Except UsageError Arguments :=
  let chars := value.toList
  let choice {β : Type} (choices : List (String × β)) (put : β → Arguments) :
      Except UsageError Arguments :=
    match choices.lookup value with
    | some b => .ok (put b)
    | none => .error .invalidValue
  let number {β : Type} (read : Option β) (put : β → Arguments) : Except UsageError Arguments :=
    match read with
    | some b => .ok (put b)
    | none => .error .invalidNumber
  match o with
  | output => .ok { a with output := value }
  | mode => choice [("contour", .contour), ("raster", .raster)] fun m => { a with mode := m }
  | resolution => .ok { a with resolution := value }
  | speed => number (Numeral.float? chars) fun x => { a with speed := x }
  | dark => number (Numeral.float? chars) fun x => { a with dark := x }
  | minLength => number (Numeral.nat? wordLimit chars) fun n => { a with minLength := n }
  | dither => .ok { a with dither := true }
  | ordering =>
    choice [("identity", .traced), ("greedy", .nearest)] fun r => { a with ordering := r }
  | edges => choice [("off", false), ("canny", true)] fun b => { a with edges := b }
  | thresholds => .ok { a with thresholds := value }
  | threshold =>
    number (signedNat? 0x100 chars) fun n => { a with threshold := UInt8.ofNat n }
  | scan => .ok { a with scan := value }
  | park => .ok { a with park := value }
  | loops => number (signedNat? 0x1_0000_0000 chars) fun n => { a with loops := UInt32.ofNat n }
  | report => .ok { a with report := some value }
  | help => .error .help

end Opt

/-- What was begun and is not yet read. -/
inductive Pending where
  | nothing
  | option (o : Opt) (value : Option String)
  | inputs (values : List String)

structure Reading where
  arguments : Arguments := {}
  given : List Opt := []
  pending : Pending := .nothing
  inputsOnly : Bool := false

namespace Reading

def accept (r : Reading) (o : Opt) (value : String) : Except UsageError Reading :=
  if r.given.contains o then .error .conflict
  else (o.store value r.arguments).map fun a => { r with arguments := a, given := o :: r.given }

def settle (r : Reading) : Except UsageError Reading :=
  let settled := { r with pending := .nothing }
  match r.pending with
  | .nothing => .ok r
  | .option _ none => .error .invalidValue
  | .option o (some value) => settled.accept o value
  | .inputs values =>
    if values.contains "" then .error .invalidValue
    else .ok { settled with arguments.inputs := r.arguments.inputs ++ values }

def addInput (r : Reading) (value : String) : Except UsageError Reading :=
  match r.pending with
  | .inputs values => .ok { r with pending := .inputs (values ++ [value]) }
  | _ => r.settle.map fun r => { r with pending := .inputs [value] }

def addOption (r : Reading) (o : Opt) (attached : Option String) : Except UsageError Reading :=
  match o.takesValue, attached with
  | true, some value => r.settle.bind fun r => r.accept o value
  | true, none => r.settle.map fun r => { r with pending := .option o none }
  | false, some _ => .error .needlessValue
  | false, none => r.settle.bind fun r => r.accept o ""

def addLong (r : Reading) (text : List Char) : Except UsageError Reading :=
  let (name, attached) := match splitFirst (· = '=') text with
    | some (name, value) => (name, some (String.ofList value))
    | none => (text, none)
  match Opt.ofLong? (String.ofList name) with
  | some o => r.addOption o attached
  | none => .error .unknownArgument

def addShort (r : Reading) (name : Char) (rest : List Char) : Except UsageError Reading :=
  match Opt.ofShort? name with
  | none => .error .unknownArgument
  | some o =>
    if o.takesValue then
      let attached := match rest with
        | [] => none
        | '=' :: value => some value
        | value => some value
      r.addOption o (attached.map String.ofList)
    else r.addOption o none

def add (r : Reading) (argument : String) : Except UsageError Reading :=
  if r.inputsOnly then r.addInput argument
  else match argument.toList with
    | ['-', '-'] => .ok { r with inputsOnly := true }
    | '-' :: '-' :: text => r.addLong text
    | '-' :: name :: rest => r.addShort name rest
    | _ =>
      match r.pending with
      | .option o none => .ok { r with pending := .option o (some argument) }
      | _ => r.addInput argument

def addAll (r : Reading) : List String → Except UsageError Reading
  | [] => .ok r
  | argument :: rest => (r.add argument).bind fun r => addAll r rest

end Reading

def Arguments.read (arguments : List String) : Except UsageError Arguments :=
  match (Reading.addAll {} arguments).bind Reading.settle with
  | .error error => .error error
  | .ok r => if r.arguments.inputs.isEmpty then .error .missingInput else .ok r.arguments

end CommandLine

end VectorDisplay
