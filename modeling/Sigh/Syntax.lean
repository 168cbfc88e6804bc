import Sigh.Source

namespace Sigh

/-- A name with the span where it is written. -/
structure Ident where
  name : String
  span : Span
  deriving Repr, Inhabited

/-- A written type: a name followed by `[]` levels. -/
inductive TypeExpr where
  | named (name : String) (span : Span)
  | array (component : TypeExpr) (span : Span)
  deriving Repr, Inhabited

namespace TypeExpr

def span : TypeExpr → Span
  | named _ s | array _ s => s

/-- `Int[][]`. -/
def text : TypeExpr → String
  | named name _ => name
  | array c _ => c.text ++ "[]"

end TypeExpr

/-- Binary operators. -/
inductive BinOp where
  | mul
  | div
  | rem
  | dot
  | add
  | sub
  | eq
  | ne
  | gt
  | lt
  | ge
  | le
  | and
  | or
  deriving DecidableEq, Repr, Inhabited

namespace BinOp

def symbol : BinOp → String
  | mul => "*"
  | div => "/"
  | rem => "%"
  | dot => "@"
  | add => "+"
  | sub => "-"
  | eq => "=="
  | ne => "!="
  | gt => ">"
  | lt => "<"
  | ge => ">="
  | le => "<="
  | and => "&&"
  | or => "||"

/-- The operator written `symbol`. -/
def ofSymbol? : String → Option BinOp
  | "*" => some mul
  | "/" => some div
  | "%" => some rem
  | "@" => some dot
  | "+" => some add
  | "-" => some sub
  | "==" => some eq
  | "!=" => some ne
  | ">" => some gt
  | "<" => some lt
  | ">=" => some ge
  | "<=" => some le
  | "&&" => some and
  | "||" => some or
  | _ => none

/-- The verb of a diagnostic about the operator: "trying to add Int with Bool". -/
def verb : BinOp → String
  | mul => "multiply"
  | div => "divide"
  | rem => "take the remainder of"
  | dot => "take the dot product of"
  | add => "add"
  | sub => "subtract"
  | eq | ne => "compare"
  | gt | lt | ge | le => "order"
  | and | or => "combine"

/-- `+ - * / %`. -/
def isArithmetic : BinOp → Bool
  | add | sub | mul | div | rem => true
  | _ => false

/-- `> < >= <=`. -/
def isOrdering : BinOp → Bool
  | gt | lt | ge | le => true
  | _ => false

def isEquality : BinOp → Bool
  | eq | ne => true
  | _ => false

def isLogic : BinOp → Bool
  | and | or => true
  | _ => false

/-- The method a struct defines to take the operator on its instances. -/
def overloadMethod? : BinOp → Option String
  | add => some "plus"
  | sub => some "minus"
  | mul => some "mul"
  | div => some "div"
  | _ => none

end BinOp

/-- Expressions. -/
inductive Expr where
  | int (value : Int64) (span : Span)
  | float (value : Float) (span : Span)
  | str (value : String) (span : Span)
  | ref (name : String) (span : Span)
  | ctor (name : Ident) (span : Span)
  | array (items : List Expr) (span : Span)
  | paren (inner : Expr) (span : Span)
  | field (stem : Expr) (name : Ident) (span : Span)
  | index (array index : Expr) (span : Span)
  | call (callee : Expr) (args : List Expr) (span : Span)
  | not (operand : Expr) (span : Span)
  | binary (op : BinOp) (left right : Expr) (span : Span)
  | assign (target value : Expr) (span : Span)
  deriving Repr, Inhabited

namespace Expr

def span : Expr → Span
  | int _ s | float _ s | str _ s | ref _ s | ctor _ s | array _ s | paren _ s | field _ _ s
  | index _ _ s | call _ _ s | not _ s | binary _ _ _ s | assign _ _ s => s

/-- Calls and assignments may stand alone as statements. -/
def isStatement : Expr → Bool
  | call .. | assign .. => true
  | _ => false

end Expr

/-- A parameter or a field: a name and its written type. -/
structure Binding where
  name : Ident
  type : TypeExpr
  deriving Repr, Inhabited

mutual
/-- Statements. -/
inductive Stmt where
  | block (body : List Stmt) (span : Span)
  | var (name : Ident) (type : TypeExpr) (init : Expr) (span : Span)
  | sizedArray (name : Ident) (element : TypeExpr) (dims : List Nat) (span : Span)
  | fnDecl (decl : FunDecl) (span : Span)
  | structDecl (decl : StructDecl) (span : Span)
  | ifElse (cond : Expr) (thenBranch : Stmt) (elseBranch : Option Stmt) (span : Span)
  | whileLoop (cond : Expr) (body : Stmt) (span : Span)
  | ret (value : Option Expr) (span : Span)
  | expr (e : Expr) (span : Span)
/-- A function or method: no result type means `Void`. -/
structure FunDecl where
  name : Ident
  params : List Binding
  result : Option TypeExpr
  body : List Stmt
  bodySpan : Span
/-- A struct with its fields and methods. -/
structure StructDecl where
  name : Ident
  fields : List Binding
  methods : List FunDecl
end

instance : Inhabited Stmt := ⟨.block [] default⟩

deriving instance Repr for Stmt, FunDecl, StructDecl

def Stmt.span : Stmt → Span
  | block _ s | var _ _ _ s | sizedArray _ _ _ s | fnDecl _ s | structDecl _ s | ifElse _ _ _ s
  | whileLoop _ _ s | ret _ s | expr _ s => s

/-- A whole source text: one or more statements. -/
structure Program where
  statements : List Stmt
  span : Span
  deriving Repr

end Sigh
