import Sigh.Arith.Remainder
import Sigh.Decimal.Layout
import Sigh.Decimal.Read
import Sigh.Decimal.Shortest
import Sigh.Diagnostic
import Sigh.Failure
import Sigh.Fault
import Sigh.Run
import Sigh.Run.Source
import Sigh.Source
import Sigh.Syntax
import Sigh.Syntax.Parse
import Sigh.Syntax.Print
import Sigh.Syntax.Read
import Sigh.Text.Escaped
import Sigh.Text.Quoted
import Sigh.Token
import Sigh.Token.Escape
import Sigh.Token.Scan
import Sigh.Ty
import Sigh.Ty.Descriptor
import Sigh.Typed
import Sigh.Typing.Check
import Sigh.Typing.Expr
import Sigh.Typing.Returns
import Sigh.Typing.Scope
import Sigh.Typing.State
import Sigh.Value
import Sigh.Value.Ops
import Sigh.Value.Render
import Sigh.Main
import Sigh.Proofs.Conformance
import Sigh.Proofs.Grammar
import Sigh.Proofs.Reading
import Sigh.Proofs.Grammar.Sound
import Sigh.Proofs.Grammar.Complete
import Sigh.Proofs.Returning
import Sigh.Proofs.Checking.Reports
import Sigh.Proofs.Grammar.Declarations
import Sigh.Proofs.Checking.Hoisting
import Sigh.Proofs.Checking.Contract
import Sigh.Proofs.Checking.Bodies
import Sigh.Proofs.Lexing.Pieces
import Sigh.Proofs.Lexing.Partition
import Sigh.Proofs.Checking.Silent
import Sigh.Proofs.Checking.Origins
import Sigh.Proofs.Checking.Kept
import Sigh.Proofs.Heap
import Sigh.Proofs.Gives
import Sigh.Proofs.ArrayOps
import Sigh.Proofs.Float.Rounding
import Sigh.Proofs.Float.Bits
import Sigh.Proofs.Float.Scientific
import Sigh.Proofs.Float.Shortest
import Sigh.Proofs.Float.Literal
import Sigh.Proofs.Printing.Tokens
import Sigh.Proofs.Supertypes
import Sigh.Proofs.ElementWise
import Sigh.Proofs.DotProduct
import Sigh.Proofs.Aggregates
import Sigh.Proofs.Printing.Lexing
import Sigh.Proofs.Printing.Shape
import Sigh.Proofs.Printing.RoundTrip
import Sigh.Proofs.Wrapping
import Sigh.Proofs.SizedArrays
import Sigh.Proofs.ElementLimit
import Sigh.Proofs.Indexing
import Sigh.Proofs.Lines
import Sigh.Proofs.Grammar.Extents
import Sigh.Proofs.Frames
import Sigh.Proofs.Declarations
import Sigh.Proofs.Checking.Locals
import Sigh.Proofs.Checking.DeclaredUses
import Sigh.Proofs.Lexing.Escapes
import Sigh.Proofs.Grammar.Progress
