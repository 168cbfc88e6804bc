import Sigh.Syntax.Print
import Sigh.Proofs.Float.Literal
import Sigh.Proofs.Lexing.Pieces

namespace Sigh

/-- A name that reads back as one identifier token: a letter or underscore, then letters, digits
and underscores, and none of the seven keywords. -/
def IsIdentifier (name : String) : Prop :=
  Scan.IsName name.toList ∧ TokenKind.keyword? name = none

/-- A character that quoted text writes as itself or as one of the escapes `\t`, `\r`, `\n`,
`\\` and `\"`: neither as `\0` nor as a `\u` escape. -/
def Text.WrittenPlain (c : Char) : Prop :=
  c ≠ '\x00' ∧ (Text.isEscapedChar c = true → c = '\t' ∨ c = '\r' ∨ c = '\n')

namespace BinOp

/-- The token that spells the operator. -/
def tokenKind : BinOp → TokenKind
  | mul => .star
  | div => .slash
  | rem => .percent
  | dot => .atSign
  | add => .plus
  | sub => .minus
  | eq => .equalEqual
  | ne => .bangEqual
  | gt => .greater
  | lt => .less
  | ge => .greaterEqual
  | le => .lessEqual
  | and => .ampAmp
  | or => .barBar

/-- The precedence level of the operator, from 0 for `||` to 4 for `* / % @`. -/
def level : BinOp → Nat
  | or => 0
  | and => 1
  | eq | ne | gt | lt | ge | le => 2
  | add | sub => 3
  | mul | div | rem | dot => 4

theorem levelOp?_level (op : BinOp) : Parse.levelOp? op.level op.tokenKind = some op := by
  cases op <;> rfl

theorem level_le (op : BinOp) : op.level ≤ 4 := by
  cases op <;> decide

end BinOp

namespace Expr

/-- Whether the expression is a `!` expression. -/
def isNot : Expr → Bool
  | not .. => true
  | _ => false

/-- The span that erased trees carry. -/
def noSpan : Span := ⟨0, 0⟩

mutual
/-- The tree with every span set to `noSpan` and every parenthesis node replaced by what it
holds. -/
def erase : Expr → Expr
  | int v _ => int v noSpan
  | float v _ => float v noSpan
  | str v _ => str v noSpan
  | ref name _ => ref name noSpan
  | ctor name _ => ctor ⟨name.name, noSpan⟩ noSpan
  | array items _ => array (eraseList items) noSpan
  | paren inner _ => inner.erase
  | field stem name _ => field stem.erase ⟨name.name, noSpan⟩ noSpan
  | index a i _ => index a.erase i.erase noSpan
  | call callee args _ => call callee.erase (eraseList args) noSpan
  | not operand _ => not operand.erase noSpan
  | binary op l r _ => binary op l.erase r.erase noSpan
  | assign t v _ => assign t.erase v.erase noSpan
/-- `erase` on each expression of a list. -/
def eraseList : List Expr → List Expr
  | [] => []
  | e :: es => e.erase :: eraseList es
end

mutual
/-- `p` holds at every node of the tree. -/
def Every (p : Expr → Prop) (e : Expr) : Prop :=
  p e ∧ match e with
    | array items _ => EveryList p items
    | paren inner _ => Every p inner
    | field stem _ _ => Every p stem
    | index a i _ => Every p a ∧ Every p i
    | call callee args _ => Every p callee ∧ EveryList p args
    | not operand _ => Every p operand
    | binary _ l r _ => Every p l ∧ Every p r
    | assign t v _ => Every p t ∧ Every p v
    | _ => True
/-- `p` holds at every node of every tree of the list. -/
def EveryList (p : Expr → Prop) : List Expr → Prop
  | [] => True
  | e :: es => Every p e ∧ EveryList p es
end

theorem Every.self {p : Expr → Prop} {e : Expr} (h : e.Every p) : p e := by
  cases e <;> exact h.1

/-- What the reader guarantees of each node it builds: every name is an identifier, and the stem
of a field access, an index or a call is no `!` expression, since the reader builds one there only
in parentheses. -/
def ReaderShaped : Expr → Prop
  | ref name _ => IsIdentifier name
  | ctor name _ => IsIdentifier name.name
  | field stem name _ => stem.isNot = false ∧ IsIdentifier name.name
  | index a _ _ => a.isNot = false
  | call callee _ _ => callee.isNot = false
  | _ => True

/-- A literal that the printer writes in a notation the reader takes in: a float that prints
positionally, and a string whose characters are all written plainly. Other nodes pass. -/
def PlainLiteral : Expr → Prop
  | float v _ => Decimal.PrintsPositionally v
  | str v _ => ∀ c ∈ v.toList, Text.WrittenPlain c
  | _ => True

/-- The tokens of a number written `text`: a minus sign if the text starts with one, and a
literal of kind `kind`. -/
def literalTokens (kind : TokenKind) (text : String) : List (TokenKind × String) :=
  match text.toList with
  | '-' :: digits => [(.minus, "-"), (kind, String.ofList digits)]
  | _ => [(kind, text)]

mutual
/-- The kinds and texts of the tokens of the printed form. -/
def tokens : Expr → List (TokenKind × String)
  | int v _ => literalTokens .intLiteral (toString v.toInt)
  | float v _ => literalTokens .floatLiteral (Decimal.literalStyle.render v)
  | str v _ => [(.stringLiteral, String.ofList (v.toList.flatMap Text.quoteChar))]
  | ref name _ => [(.ident, name)]
  | ctor name _ => [(.dollar, "$"), (.ident, name.name)]
  | array items _ => (.lBracket, "[") :: tokensList items ++ [(.rBracket, "]")]
  | paren inner _ => (.lParen, "(") :: inner.tokens ++ [(.rParen, ")")]
  | field stem name _ => stem.tokens ++ [(.dot, "."), (.ident, name.name)]
  | index a i _ => a.tokens ++ (.lBracket, "[") :: i.tokens ++ [(.rBracket, "]")]
  | call callee args _ => callee.tokens ++ (.lParen, "(") :: tokensList args ++ [(.rParen, ")")]
  | not operand _ => (.bang, "!") :: operand.tokens
  | binary op l r _ =>
    (.lParen, "(") :: l.tokens ++ (op.tokenKind, op.symbol) :: r.tokens ++ [(.rParen, ")")]
  | assign t v _ => (.lParen, "(") :: t.tokens ++ (.equal, "=") :: v.tokens ++ [(.rParen, ")")]
/-- The tokens of expressions printed one after another with commas between them. -/
def tokensList : List Expr → List (TokenKind × String)
  | [] => []
  | [e] => e.tokens
  | e :: es => e.tokens ++ (.comma, ",") :: tokensList es
end

end Expr

end Sigh
