import Sigh.Diagnostic
import Sigh.Fault

namespace Sigh

/-- The stage that stopped, with its diagnostics. -/
inductive Failure where
  | lex (diagnostics : List Diagnostic)
  | parse (diagnostic : Diagnostic)
  | semantic (diagnostics : List Diagnostic)
  | runtime (fault : Fault) (span : Span)
  deriving Repr

namespace Failure

def kind : Failure → String
  | lex _ => "LexErrors"
  | parse _ => "ParseError"
  | semantic _ => "SemanticErrors"
  | runtime .. => "Runtime"

def message : Failure → String
  | lex ds => "lexing failed with " ++ toString ds.length ++ " error(s)"
  | parse d => "parse error: " ++ d.summary
  | semantic ds => "semantic analysis failed with " ++ toString ds.length ++ " error(s)"
  | runtime fault span => "runtime error at " ++ span.text ++ ": " ++ fault.message

def diagnostics : Failure → List Diagnostic
  | lex ds => ds
  | parse d => [d]
  | semantic ds => ds
  | runtime fault span => [⟨.runtime, fault.message, span⟩]

end Failure

end Sigh
