import VectorDisplay.Fault
set_option autoImplicit false

namespace VectorDisplay

inductive Cause where
  | config (field value reason : String)
  | validation (field constraint value : String)
  | resource (name reason : String)
  | capacity (total written : Nat)
  | io (operation path source : String)
  | decode (path source : String) (deeper : List String)
  | external (library source : String)
  | state (current attempted reason : String)
  | handoff (reason : String)
  deriving DecidableEq, Repr

structure Error where
  cause : Cause
  context : Option String := none
  details : List (String × String) := []
  deriving DecidableEq, Repr

namespace Cause

def category : Cause → String
  | .config .. => "config"
  | .validation .. => "validation"
  | .resource .. => "resource"
  | .capacity .. => "capacity"
  | .io .. => "io"
  | .decode .. => "decode"
  | .external .. => "external"
  | .state .. => "state"
  | .handoff .. => "handoff"

def message : Cause → String
  | .config field value reason =>
    "Configuration error in '" ++ field ++ "': " ++ reason ++ " (value: " ++ value ++ ")"
  | .validation field constraint value =>
    "Validation failed for '" ++ field ++ "': " ++ constraint ++ " (value: " ++ value ++ ")"
  | .resource name reason => "Resource allocation failed for " ++ name ++ ": " ++ reason
  | .capacity total written =>
    "Sample buffer incomplete: " ++ toString written ++ " of " ++ toString total ++
      " samples written"
  | .io operation path source =>
    "I/O error during " ++ operation ++ " on '" ++ path ++ "': " ++ source
  | .decode path source _ => "Failed to decode '" ++ path ++ "': " ++ source
  | .external library source => "External library error in " ++ library ++ ": " ++ source
  | .state current attempted reason =>
    "Cannot " ++ attempted ++ " while " ++ current ++ ": " ++ reason
  | .handoff reason => "Frame hand-off failed: " ++ reason

def sources : Cause → List String
  | .io _ _ source => [source]
  | .decode _ source deeper => source :: deeper
  | .external _ source => [source]
  | _ => []

/-- Nothing may be drawn for the frame at hand, and the next frame may succeed. -/
def losesFrame : Cause → Bool
  | .resource .. => true
  | .capacity .. => true
  | _ => false

end Cause

namespace Error

def of (cause : Cause) : Error := { cause }

def category (e : Error) : String := e.cause.category

def message (e : Error) : String :=
  match e.context with
  | none => e.cause.message
  | some context => e.cause.message ++ " (" ++ context ++ ")"

def losesFrame (e : Error) : Bool := e.cause.losesFrame

def during (e : Error) (context : String) : Error := { e with context := some context }

/-- Puts a key in its place; a key that is there takes the new value. -/
def putDetail (key value : String) : List (String × String) → List (String × String)
  | [] => [(key, value)]
  | (k, v) :: rest =>
    if key < k then (key, value) :: (k, v) :: rest
    else if key = k then (key, value) :: rest
    else (k, v) :: putDetail key value rest

def detail (e : Error) (key value : String) : Error :=
  { e with details := putDetail key value e.details }

end Error

inductive Failure where
  | error (error : Error)
  | refused (text : String)
  | fault (fault : Fault)
  deriving DecidableEq, Repr

end VectorDisplay
