namespace Sigh

/-- Why a running program stopped. -/
inductive Fault where
  | nullPointer (context : String)
  | indexOutOfBounds (index : Int) (length : Nat)
  | divisionByZero
  | shapeMismatch (detail : String)
  | unsupportedOperands (detail : String)
  | output (detail : String)
  | internal (detail : String)
  deriving Repr, Inhabited

namespace Fault

/-- The class of the fault. -/
def kind : Fault → String
  | nullPointer _ => "NullPointer"
  | indexOutOfBounds .. => "IndexOutOfBounds"
  | divisionByZero => "DivisionByZero"
  | shapeMismatch _ => "ShapeMismatch"
  | unsupportedOperands _ => "UnsupportedOperands"
  | output _ => "Output"
  | internal _ => "Internal"

def message : Fault → String
  | nullPointer context => "null pointer: " ++ context
  | indexOutOfBounds i n => "index " ++ toString i ++ " out of bounds for length " ++ toString n
  | divisionByZero => "division by zero"
  | shapeMismatch detail => "shape mismatch: " ++ detail
  | unsupportedOperands detail => "unsupported operands: " ++ detail
  | output detail => "failed to write program output: " ++ detail
  | internal detail => "internal interpreter error: " ++ detail

end Fault

end Sigh
