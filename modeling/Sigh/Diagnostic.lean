import Sigh.Source

namespace Sigh

/-- The class of a diagnostic. -/
inductive Code where
  | unexpectedCharacter
  | unterminatedString
  | invalidEscape
  | malformed
  | outOfRange
  | semantic
  | runtime
  deriving DecidableEq, Repr

/-- The code written in brackets. -/
def Code.text : Code → String
  | unexpectedCharacter => "E0001"
  | unterminatedString => "E0002"
  | invalidEscape => "E0003"
  | malformed => "E0100"
  | outOfRange => "E0101"
  | semantic => "E0200"
  | runtime => "E0300"

/-- A message attached to a span. -/
structure Diagnostic where
  code : Code
  message : String
  span : Span
  deriving Repr

namespace Diagnostic

/-- `file:line:column: error[code]: message`, with the position of the span's start. -/
def render (d : Diagnostic) (lines : LineMap) (fileName : String) : String :=
  let p := lines.lineCol d.span.start
  fileName ++ ":" ++ toString p.line ++ ":" ++ toString p.column ++ ": error[" ++ d.code.text ++
    "]: " ++ d.message

/-- `error: message (start..stop)`. -/
def summary (d : Diagnostic) : String := "error: " ++ d.message ++ " (" ++ d.span.text ++ ")"

end Diagnostic

end Sigh
