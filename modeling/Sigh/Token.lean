import Sigh.Source

namespace Sigh

/-- The kind of a token. -/
inductive TokenKind where
  | eof
  | ident
  | intLiteral
  | floatLiteral
  | stringLiteral
  | lParen
  | rParen
  | lBrace
  | rBrace
  | lBracket
  | rBracket
  | comma
  | colon
  | dot
  | dollar
  | atSign
  | star
  | slash
  | percent
  | plus
  | minus
  | equal
  | equalEqual
  | bangEqual
  | less
  | lessEqual
  | greater
  | greaterEqual
  | ampAmp
  | barBar
  | bang
  | kwVar
  | kwFun
  | kwStruct
  | kwIf
  | kwElse
  | kwWhile
  | kwReturn
  deriving DecidableEq, Repr, Inhabited

namespace TokenKind

/-- The kind's name in token listings. -/
def name : TokenKind → String
  | eof => "Eof"
  | ident => "Ident"
  | intLiteral => "IntLiteral"
  | floatLiteral => "FloatLiteral"
  | stringLiteral => "StringLiteral"
  | lParen => "LParen"
  | rParen => "RParen"
  | lBrace => "LBrace"
  | rBrace => "RBrace"
  | lBracket => "LBracket"
  | rBracket => "RBracket"
  | comma => "Comma"
  | colon => "Colon"
  | dot => "Dot"
  | dollar => "Dollar"
  | atSign => "At"
  | star => "Star"
  | slash => "Slash"
  | percent => "Percent"
  | plus => "Plus"
  | minus => "Minus"
  | equal => "Equal"
  | equalEqual => "EqualEqual"
  | bangEqual => "BangEqual"
  | less => "Less"
  | lessEqual => "LessEqual"
  | greater => "Greater"
  | greaterEqual => "GreaterEqual"
  | ampAmp => "AmpAmp"
  | barBar => "BarBar"
  | bang => "Bang"
  | kwVar => "Var"
  | kwFun => "Fun"
  | kwStruct => "Struct"
  | kwIf => "If"
  | kwElse => "Else"
  | kwWhile => "While"
  | kwReturn => "Return"

/-- How a syntax error names the kind. -/
def describe : TokenKind → String
  | eof => "end of input"
  | ident => "identifier"
  | intLiteral => "integer literal"
  | floatLiteral => "float literal"
  | stringLiteral => "string literal"
  | lParen => "'('"
  | rParen => "')'"
  | lBrace => "'\x7b'"
  | rBrace => "'\x7d'"
  | lBracket => "'['"
  | rBracket => "']'"
  | comma => "','"
  | colon => "':'"
  | dot => "'.'"
  | dollar => "'$'"
  | atSign => "'@'"
  | star => "'*'"
  | slash => "'/'"
  | percent => "'%'"
  | plus => "'+'"
  | minus => "'-'"
  | equal => "'='"
  | equalEqual => "'=='"
  | bangEqual => "'!='"
  | less => "'<'"
  | lessEqual => "'<='"
  | greater => "'>'"
  | greaterEqual => "'>='"
  | ampAmp => "'&&'"
  | barBar => "'||'"
  | bang => "'!'"
  | kwVar => "'var'"
  | kwFun => "'fun'"
  | kwStruct => "'struct'"
  | kwIf => "'if'"
  | kwElse => "'else'"
  | kwWhile => "'while'"
  | kwReturn => "'return'"

/-- The keyword spelled by an identifier, if it is one. -/
def keyword? : String → Option TokenKind
  | "var" => some kwVar
  | "fun" => some kwFun
  | "struct" => some kwStruct
  | "if" => some kwIf
  | "else" => some kwElse
  | "while" => some kwWhile
  | "return" => some kwReturn
  | _ => none

end TokenKind

/-- A token: its kind, the span it covers, and its text. The text of a string literal is its raw
content between the quotes, escapes not decoded; the span covers the quotes. -/
structure Token where
  kind : TokenKind
  span : Span
  text : String
  deriving Repr, Inhabited

end Sigh
