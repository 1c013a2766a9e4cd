set_option autoImplicit false

namespace VectorDisplay

inductive Severity where
  | error | warning | info | debug
  deriving DecidableEq, Repr

structure Record where
  severity : Severity
  text : String
  deriving DecidableEq, Repr

abbrev Log := List Record

def Record.error (text : String) : Record := ⟨.error, text⟩
def Record.warning (text : String) : Record := ⟨.warning, text⟩
def Record.info (text : String) : Record := ⟨.info, text⟩
def Record.debug (text : String) : Record := ⟨.debug, text⟩

end VectorDisplay
