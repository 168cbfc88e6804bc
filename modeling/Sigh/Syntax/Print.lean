import Sigh.Syntax
import Sigh.Decimal.Layout
import Sigh.Text.Quoted

namespace Sigh.Expr

mutual
/-- The fully parenthesised text of an expression. -/
def text : Expr → String
  | int v _ => toString v.toInt
  | float v _ => Decimal.literalStyle.render v
  | str v _ => Text.quote v
  | ref name _ => name
  | ctor name _ => "$" ++ name.name
  | array items _ => "[" ++ textList items ++ "]"
  | paren inner _ => "(" ++ inner.text ++ ")"
  | field stem name _ => stem.text ++ "." ++ name.name
  | index a i _ => a.text ++ "[" ++ i.text ++ "]"
  | call callee args _ => callee.text ++ "(" ++ textList args ++ ")"
  | not operand _ => "!" ++ operand.text
  | binary op l r _ => "(" ++ l.text ++ " " ++ op.symbol ++ " " ++ r.text ++ ")"
  | assign t v _ => "(" ++ t.text ++ " = " ++ v.text ++ ")"
/-- Expressions separated by `, `. -/
def textList : List Expr → String
  | [] => ""
  | [e] => e.text
  | e :: es => e.text ++ ", " ++ textList es
end

end Sigh.Expr
