import Sigh.Syntax.Parse
import Sigh.Failure

namespace Sigh

/-- The tokens of a source text, or all of its lexical faults. -/
def tokensOf (source : String) : Except Failure (List Token) :=
  let lexed := lex source
  if lexed.faults.isEmpty then .ok lexed.tokens
  else .error (.lex (lexed.faults.map LexFault.diagnostic))

/-- The program that a source text spells. -/
def Program.read (source : String) : Except Failure Program := do
  let tokens ← tokensOf source
  (Program.ofTokens tokens).mapError .parse

/-- The single expression that a source text spells. -/
def Expr.read (source : String) : Except Failure Expr := do
  let tokens ← tokensOf source
  (Expr.ofTokens tokens).mapError .parse

end Sigh
