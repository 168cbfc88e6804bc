import Sigh.Syntax
import Sigh.Diagnostic
import Sigh.Token.Scan
import Sigh.Token.Escape
import Sigh.Decimal.Read

namespace Sigh.Parse

/-- The tokens not yet read, the end of the last token read, and where the input ends. -/
structure Cursor where
  rest : List Token
  lastEnd : Nat
  eofAt : Nat

/-- A cursor with fewer tokens left than `c`. -/
abbrev Ahead (c : Cursor) := { d : Cursor // d.rest.length < c.rest.length }

/-- A cursor with no more tokens left than `c`. -/
abbrev Within (c : Cursor) := { d : Cursor // d.rest.length ≤ c.rest.length }

/-- The largest number of elements a sized array declaration may have. -/
def maxArrayElements : Nat := Nat.pow 2 24

namespace Cursor

def eofToken (c : Cursor) : Token := ⟨.eof, ⟨c.eofAt, c.eofAt⟩, ""⟩

/-- The next token, or the end of input. -/
def peek (c : Cursor) : Token := c.rest.head?.getD c.eofToken

def peekKind (c : Cursor) : TokenKind := c.peek.kind

/-- The kind of the token after the next one. -/
def kindAfter (c : Cursor) : TokenKind :=
  match c.rest with
  | _ :: t :: _ => t.kind
  | _ => .eof

/-- Consumes the next token if it has kind `kind`; the end of input is never consumed. -/
def eat? (c : Cursor) (kind : TokenKind) : Option (Token × Ahead c) :=
  match h : c.rest with
  | t :: r =>
    if t.kind = kind then some (t, ⟨{ c with rest := r, lastEnd := t.span.stop }, by simp [h]⟩)
    else none
  | [] => none

/-- `expected X, found Y` at the next token. -/
def unexpected (c : Cursor) (expected : String) : Diagnostic :=
  let t := c.peek
  let found := if t.kind = .ident then "identifier '" ++ t.text ++ "'" else t.kind.describe
  ⟨.malformed, "expected " ++ expected ++ ", found " ++ found, t.span⟩

/-- Consumes a token of kind `kind`, or fails naming it. -/
def expect (c : Cursor) (kind : TokenKind) : Except Diagnostic (Token × Ahead c) :=
  match c.eat? kind with
  | some r => .ok r
  | none => .error (c.unexpected kind.describe)

/-- The span from `start` to the end of the last token read. -/
def spanFrom (c : Cursor) (start : Nat) : Span := ⟨start, max c.lastEnd start⟩

def ident (c : Cursor) : Except Diagnostic (Ident × Ahead c) := do
  let (t, d) ← c.expect .ident
  pure (⟨t.text, t.span⟩, d)

end Cursor

/-- Kinds of token that can start an expression. -/
def startsExpression : TokenKind → Bool
  | .ident | .intLiteral | .floatLiteral | .stringLiteral | .lParen | .lBracket | .dollar | .bang
  | .minus => true
  | _ => false

/-- The binary operator of precedence level `level` (0 for `||` up to 4 for `* / % @`) that a
token spells. -/
def levelOp? : Nat → TokenKind → Option BinOp
  | 0, .barBar => some .or
  | 1, .ampAmp => some .and
  | 2, .equalEqual => some .eq
  | 2, .bangEqual => some .ne
  | 2, .lessEqual => some .le
  | 2, .greaterEqual => some .ge
  | 2, .less => some .lt
  | 2, .greater => some .gt
  | 3, .plus => some .add
  | 3, .minus => some .sub
  | 4, .star => some .mul
  | 4, .slash => some .div
  | 4, .percent => some .rem
  | 4, .atSign => some .dot
  | _, _ => none

/-- Consumes a binary operator of level `level`. -/
def Cursor.binaryOp? (c : Cursor) (level : Nat) : Option (BinOp × Ahead c) :=
  match levelOp? level c.peekKind with
  | some op => (c.eat? c.peekKind).map fun (_, d) => (op, d)
  | none => none

/-- A number literal token, negated when a minus sign stands before it. Integers must lie in the
64-bit signed range; floats are rounded to the nearest value. -/
def numberLiteral (t : Token) (negative : Bool) : Except Diagnostic (Span → Expr) :=
  let text := if negative then "-" ++ t.text else t.text
  if t.kind = .floatLiteral then
    let x := (Decimal.readFloat? t.text).getD 0.0
    .ok (.float (if negative then -x else x))
  else
    let n := t.text.toNat!
    let v : Int := if negative then -(n : Int) else n
    if -Int.pow 2 63 ≤ v ∧ v < Int.pow 2 63 then .ok (.int (Int64.ofInt v))
    else .error ⟨.outOfRange, "integer literal out of range: " ++ text, t.span⟩

/-- A type: a name followed by `[]` levels. -/
def typeSuffixes (start : Nat) (t : TypeExpr) (c : Cursor) : Except Diagnostic (TypeExpr × Within c) :=
  match c.eat? .lBracket with
  | none => .ok (t, ⟨c, Nat.le_refl _⟩)
  | some (_, ⟨d, hd⟩) => do
    let (_, ⟨e, he⟩) ← d.expect .rBracket
    let (r, ⟨f, hf⟩) ← typeSuffixes start (.array t (e.spanFrom start)) e
    pure (r, ⟨f, by omega⟩)
termination_by c.rest.length

def typeExpr (c : Cursor) : Except Diagnostic (TypeExpr × Ahead c) := do
  let (name, ⟨d, hd⟩) ← c.ident
  let (t, ⟨e, he⟩) ← typeSuffixes name.span.start (.named name.name name.span) d
  pure (t, ⟨e, by omega⟩)

/-- A name, a colon and a type. -/
def binding (c : Cursor) : Except Diagnostic (Binding × Ahead c) := do
  let (name, ⟨d, hd⟩) ← c.ident
  let (_, ⟨e, he⟩) ← d.expect .colon
  let (t, ⟨f, hf⟩) ← typeExpr e
  pure (⟨name, t⟩, ⟨f, by omega⟩)

/-- Parameters separated by commas, before the closing parenthesis. -/
def paramItems (c : Cursor) (acc : Array Binding) : Except Diagnostic ((List Binding) × Ahead c) := do
  let (b, ⟨d, hd⟩) ← binding c
  match d.eat? .comma with
  | some (_, ⟨e, he⟩) =>
    let (r, ⟨f, hf⟩) ← paramItems e (acc.push b)
    pure (r, ⟨f, by omega⟩)
  | none => pure ((acc.push b).toList, ⟨d, hd⟩)
termination_by c.rest.length

/-- A possibly empty parameter list. -/
def params (c : Cursor) : Except Diagnostic ((List Binding) × Within c) :=
  if c.peekKind = .rParen then .ok ([], ⟨c, Nat.le_refl _⟩)
  else do
    let (r, ⟨d, hd⟩) ← paramItems c #[]
    pure (r, ⟨d, Nat.le_of_lt hd⟩)

/-- The sizes and levels written after the element type of a variable declaration. -/
structure Dimensions where
  type : TypeExpr
  sized : List Nat
  unsized : Nat

/-- The size written in one dimension, which must fit in 64 bits. -/
def dimensionSize (acc : Dimensions) (c : Cursor) : Except Diagnostic (Dimensions × Within c) :=
  match c.eat? .intLiteral with
  | some (t, ⟨d, hd⟩) =>
    let n := t.text.toNat!
    if n < Nat.pow 2 64 then .ok ({ acc with sized := acc.sized ++ [n] }, ⟨d, Nat.le_of_lt hd⟩)
    else .error ⟨.outOfRange, "array size out of range: " ++ t.text, t.span⟩
  | none => .ok ({ acc with unsized := acc.unsized + 1 }, ⟨c, Nat.le_refl _⟩)

/-- Dimensions `[n]` or `[]` after the element type that starts at byte `start`. -/
def dimensions (start : Nat) (acc : Dimensions) (c : Cursor) : Except Diagnostic (Dimensions × Within c) :=
  match c.eat? .lBracket with
  | none => .ok (acc, ⟨c, Nat.le_refl _⟩)
  | some (_, ⟨d, hd⟩) => do
    let (acc, ⟨e, he⟩) ← dimensionSize acc d
    let (_, ⟨f, hf⟩) ← e.expect .rBracket
    let (r, ⟨g, hg⟩) ← dimensions start { acc with type := .array acc.type (f.spanFrom start) } f
    pure (r, ⟨g, by omega⟩)
termination_by c.rest.length

/-- The product of the sizes, if no partial product reaches `2 ^ 64`, is at most
`maxArrayElements`. -/
def withinElementLimit (sizes : List Nat) : Bool :=
  let product := sizes.foldl (fun acc n => acc.bind fun t =>
    if t * n < Nat.pow 2 64 then some (t * n) else none) (some 1)
  match product with
  | some t => t ≤ maxArrayElements
  | none => false

mutual

/-- A statement. -/
def statement (c : Cursor) : Except Diagnostic (Stmt × Ahead c) := do
  let start := c.peek.span.start
  let (mk, ⟨d, hd⟩) ←
    match c.peekKind with
    | .lBrace => do
      let ((body, _), d) ← block c
      pure (Stmt.block body, d)
    | .kwVar => varDecl c
    | .kwFun => do
      let (f, d) ← funDecl c
      pure (Stmt.fnDecl f, d)
    | .kwStruct => do
      let (s, d) ← structDecl c
      pure (Stmt.structDecl s, d)
    | .kwIf => ifStmt c
    | .kwWhile => whileStmt c
    | .kwReturn => returnStmt c
    | kind =>
      if startsExpression kind then do
        let (e, d) ← expression c
        pure (Stmt.expr e, d)
      else throw (c.unexpected "statement")
  pure (mk (d.spanFrom start), ⟨d, hd⟩)
termination_by c.rest.length * 64 + 50

/-- `{ statements }`, with the span of the braces. -/
def block (c : Cursor) : Except Diagnostic ((List Stmt × Span) × Ahead c) := do
  let (opening, ⟨c1, h1⟩) ← c.expect .lBrace
  let (body, ⟨c2, h2⟩) ← blockItems c1 #[]
  let (_, ⟨c3, h3⟩) ← c2.expect .rBrace
  pure ((body, c3.spanFrom opening.span.start), ⟨c3, by omega⟩)
termination_by c.rest.length * 64 + 45

/-- Statements up to a closing brace or the end of input. -/
def blockItems (c : Cursor) (acc : Array Stmt) : Except Diagnostic ((List Stmt) × Within c) :=
  match c.peekKind with
  | .rBrace | .eof => .ok (acc.toList, ⟨c, Nat.le_refl _⟩)
  | _ => do
    let (s, ⟨d, hd⟩) ← statement c
    let (r, ⟨e, he⟩) ← blockItems d (acc.push s)
    pure (r, ⟨e, by omega⟩)
termination_by c.rest.length * 64 + 51

/-- `var name: Type = value`, or `var name: Element[2][3]` without a value. -/
def varDecl (c : Cursor) : Except Diagnostic ((Span → Stmt) × Ahead c) := do
  let (_, ⟨c1, h1⟩) ← c.expect .kwVar
  let (name, ⟨c2, h2⟩) ← c1.ident
  let (_, ⟨c3, h3⟩) ← c2.expect .colon
  let (base, ⟨c4, h4⟩) ← c3.ident
  let element := TypeExpr.named base.name base.span
  let (dims, ⟨c5, h5⟩) ← dimensions base.span.start ⟨element, [], 0⟩ c4
  if dims.sized.isEmpty then
    let (_, ⟨c6, h6⟩) ← c5.expect .equal
    let (init, ⟨c7, h7⟩) ← expression c6
    pure (Stmt.var name dims.type init, ⟨c7, by omega⟩)
  else if dims.unsized > 0 then
    throw ⟨.malformed, "cannot mix sized and unsized array dimensions", dims.type.span⟩
  else if !withinElementLimit dims.sized then
    throw ⟨.outOfRange, "array size out of range: more than " ++ toString maxArrayElements ++
      " elements", dims.type.span⟩
  else if c5.peekKind = .equal then
    throw ⟨.malformed, "a sized array declaration cannot have an initializer", c5.peek.span⟩
  else
    pure (Stmt.sizedArray name element dims.sized, ⟨c5, by omega⟩)

/-- `fun name(params): Result { body }`. -/
def funDecl (c : Cursor) : Except Diagnostic (FunDecl × Ahead c) := do
  let (_, ⟨c1, h1⟩) ← c.expect .kwFun
  let (name, ⟨c2, h2⟩) ← c1.ident
  let (_, ⟨c3, h3⟩) ← c2.expect .lParen
  let (ps, ⟨c4, h4⟩) ← params c3
  let (_, ⟨c5, h5⟩) ← c4.expect .rParen
  let (result, ⟨c6, h6⟩) ←
    match c5.eat? .colon with
    | some (_, ⟨d, hd⟩) => do
      let (t, ⟨e, he⟩) ← typeExpr d
      pure (some t, (⟨e, by omega⟩ : Within c5))
    | none => pure (none, (⟨c5, Nat.le_refl _⟩ : Within c5))
  let ((body, bodySpan), ⟨c7, h7⟩) ← block c6
  pure (⟨name, ps, result, body, bodySpan⟩, ⟨c7, by omega⟩)
termination_by c.rest.length * 64 + 44

/-- `struct Name { var field: Type  fun method() {} }`. -/
def structDecl (c : Cursor) : Except Diagnostic (StructDecl × Ahead c) := do
  let (_, ⟨c1, h1⟩) ← c.expect .kwStruct
  let (name, ⟨c2, h2⟩) ← c1.ident
  let (_, ⟨c3, h3⟩) ← c2.expect .lBrace
  let ((fields, methods), ⟨c4, h4⟩) ← members c3 #[] #[]
  pure (⟨name, fields, methods⟩, ⟨c4, by omega⟩)
termination_by c.rest.length * 64 + 44

/-- Fields and methods of a struct, and its closing brace. -/
def members (c : Cursor) (fields : Array Binding) (methods : Array FunDecl) :
    Except Diagnostic ((List Binding × List FunDecl) × Ahead c) :=
  match c.peekKind with
  | .kwVar => do
    let (_, ⟨c1, h1⟩) ← c.expect .kwVar
    let (b, ⟨c2, h2⟩) ← binding c1
    let (r, ⟨c3, h3⟩) ← members c2 (fields.push b) methods
    pure (r, ⟨c3, by omega⟩)
  | .kwFun => do
    let (f, ⟨c1, h1⟩) ← funDecl c
    let (r, ⟨c2, h2⟩) ← members c1 fields (methods.push f)
    pure (r, ⟨c2, by omega⟩)
  | .rBrace => do
    let (_, d) ← c.expect .rBrace
    pure ((fields.toList, methods.toList), d)
  | _ => throw (c.unexpected "field or method declaration")
termination_by c.rest.length * 64 + 46

/-- `if condition statement else statement`; an `else` belongs to the nearest `if`. -/
def ifStmt (c : Cursor) : Except Diagnostic ((Span → Stmt) × Ahead c) := do
  let (_, ⟨c1, h1⟩) ← c.expect .kwIf
  let (cond, ⟨c2, h2⟩) ← expression c1
  let (thenBranch, ⟨c3, h3⟩) ← statement c2
  match c3.eat? .kwElse with
  | some (_, ⟨c4, h4⟩) =>
    let (elseBranch, ⟨c5, h5⟩) ← statement c4
    pure (Stmt.ifElse cond thenBranch (some elseBranch), ⟨c5, by omega⟩)
  | none => pure (Stmt.ifElse cond thenBranch none, ⟨c3, by omega⟩)
termination_by c.rest.length * 64 + 44

def whileStmt (c : Cursor) : Except Diagnostic ((Span → Stmt) × Ahead c) := do
  let (_, ⟨c1, h1⟩) ← c.expect .kwWhile
  let (cond, ⟨c2, h2⟩) ← expression c1
  let (body, ⟨c3, h3⟩) ← statement c2
  pure (Stmt.whileLoop cond body, ⟨c3, by omega⟩)
termination_by c.rest.length * 64 + 44

/-- `return`, with a value exactly when the next token can start an expression. -/
def returnStmt (c : Cursor) : Except Diagnostic ((Span → Stmt) × Ahead c) := do
  let (_, ⟨c1, h1⟩) ← c.expect .kwReturn
  if startsExpression c1.peekKind then
    let (e, ⟨c2, h2⟩) ← expression c1
    pure (Stmt.ret (some e), ⟨c2, by omega⟩)
  else pure (Stmt.ret none, ⟨c1, h1⟩)

/-- An expression: an assignment or an operand of `||`. -/
def expression (c : Cursor) : Except Diagnostic (Expr × Ahead c) := do
  let (target, ⟨c1, h1⟩) ← binary 0 c
  match c1.eat? .equal with
  | none => pure (target, ⟨c1, h1⟩)
  | some (_, ⟨c2, h2⟩) =>
    let (value, ⟨c3, h3⟩) ← expression c2
    pure (.assign target value (target.span.merge value.span), ⟨c3, by omega⟩)
termination_by c.rest.length * 64 + 30

/-- Operands of level `level` joined by its operators, from the left. -/
def binary (level : Nat) (c : Cursor) : Except Diagnostic (Expr × Ahead c) := do
  let (left, ⟨c1, h1⟩) ← if level < 4 then binary (level + 1) c else prefixExpr c
  let (e, ⟨c2, h2⟩) ← binaryRest level left c1
  pure (e, ⟨c2, by omega⟩)
termination_by c.rest.length * 64 + 11 + (4 - level)

/-- Further operators of level `level` and their right operands. -/
def binaryRest (level : Nat) (left : Expr) (c : Cursor) : Except Diagnostic (Expr × Within c) :=
  match c.binaryOp? level with
  | none => .ok (left, ⟨c, Nat.le_refl _⟩)
  | some (op, ⟨c1, h1⟩) => do
    let (right, ⟨c2, h2⟩) ← if level < 4 then binary (level + 1) c1 else prefixExpr c1
    let (e, ⟨c3, h3⟩) ← binaryRest level (.binary op left right (left.span.merge right.span)) c2
    pure (e, ⟨c3, by omega⟩)
termination_by c.rest.length * 64 + 1

/-- `!` operands, or a suffixed expression. -/
def prefixExpr (c : Cursor) : Except Diagnostic (Expr × Ahead c) :=
  match c.eat? .bang with
  | some (bang, ⟨c1, h1⟩) => do
    let (operand, ⟨c2, h2⟩) ← prefixExpr c1
    pure (.not operand (bang.span.merge operand.span), ⟨c2, by omega⟩)
  | none => suffixExpr c
termination_by c.rest.length * 64 + 10

def suffixExpr (c : Cursor) : Except Diagnostic (Expr × Ahead c) := do
  let (e, ⟨c1, h1⟩) ← basicExpr c
  let (r, ⟨c2, h2⟩) ← suffixRest e c1
  pure (r, ⟨c2, by omega⟩)
termination_by c.rest.length * 64 + 9

/-- Field accesses, indexing and calls after an expression. -/
def suffixRest (e : Expr) (c : Cursor) : Except Diagnostic (Expr × Within c) :=
  let start := e.span.start
  match c.peekKind with
  | .dot => do
    let (_, ⟨c1, h1⟩) ← c.expect .dot
    let (name, ⟨c2, h2⟩) ← c1.ident
    let (r, ⟨c3, h3⟩) ← suffixRest (.field e name (c2.spanFrom start)) c2
    pure (r, ⟨c3, by omega⟩)
  | .lBracket => do
    let (_, ⟨c1, h1⟩) ← c.expect .lBracket
    let (i, ⟨c2, h2⟩) ← expression c1
    let (_, ⟨c3, h3⟩) ← c2.expect .rBracket
    let (r, ⟨c4, h4⟩) ← suffixRest (.index e i (c3.spanFrom start)) c3
    pure (r, ⟨c4, by omega⟩)
  | .lParen => do
    let (_, ⟨c1, h1⟩) ← c.expect .lParen
    let (args, ⟨c2, h2⟩) ← exprList .rParen c1
    let (r, ⟨c3, h3⟩) ← suffixRest (.call e args (c2.spanFrom start)) c2
    pure (r, ⟨c3, by omega⟩)
  | _ => .ok (e, ⟨c, Nat.le_refl _⟩)
termination_by c.rest.length * 64 + 1

/-- Literals, names, constructors, parentheses and array literals. -/
def basicExpr (c : Cursor) : Except Diagnostic (Expr × Ahead c) := do
  let t := c.peek
  let start := t.span.start
  let (mk, ⟨d, hd⟩) ←
    match t.kind with
    | .dollar => do
      let (_, ⟨c1, h1⟩) ← c.expect .dollar
      let (name, ⟨c2, h2⟩) ← c1.ident
      pure (Expr.ctor name, (⟨c2, by omega⟩ : Ahead c))
    | .ident => do
      let (_, d) ← c.expect .ident
      pure (Expr.ref t.text, d)
    | .intLiteral | .floatLiteral => do
      let (_, d) ← c.expect t.kind
      let mk ← numberLiteral t false
      pure (mk, d)
    | .minus =>
      if c.kindAfter = .intLiteral || c.kindAfter = .floatLiteral then do
        let (_, ⟨c1, h1⟩) ← c.expect .minus
        let (lit, ⟨c2, h2⟩) ← c1.expect c1.peekKind
        let mk ← numberLiteral lit true
        pure (mk, (⟨c2, by omega⟩ : Ahead c))
      else throw (c.unexpected "expression")
    | .stringLiteral => do
      let (_, d) ← c.expect .stringLiteral
      pure (Expr.str (unescape t.text), d)
    | .lParen => do
      let (_, ⟨c1, h1⟩) ← c.expect .lParen
      let (inner, ⟨c2, h2⟩) ← expression c1
      let (_, ⟨c3, h3⟩) ← c2.expect .rParen
      pure (Expr.paren inner, (⟨c3, by omega⟩ : Ahead c))
    | .lBracket => do
      let (_, ⟨c1, h1⟩) ← c.expect .lBracket
      let (items, ⟨c2, h2⟩) ← exprList .rBracket c1
      pure (Expr.array items, (⟨c2, by omega⟩ : Ahead c))
    | _ => throw (c.unexpected "expression")
  pure (mk (d.spanFrom start), ⟨d, hd⟩)
termination_by c.rest.length * 64 + 8

/-- Expressions separated by commas, and the closing token `close`. -/
def exprList (close : TokenKind) (c : Cursor) : Except Diagnostic ((List Expr) × Ahead c) :=
  match c.eat? close with
  | some (_, d) => .ok ([], d)
  | none => exprItems close c #[]
termination_by c.rest.length * 64 + 36

def exprItems (close : TokenKind) (c : Cursor) (acc : Array Expr) : Except Diagnostic ((List Expr) × Ahead c) := do
  let (e, ⟨c1, h1⟩) ← expression c
  match c1.eat? .comma with
  | some (_, ⟨c2, h2⟩) =>
    let (r, ⟨c3, h3⟩) ← exprItems close c2 (acc.push e)
    pure (r, ⟨c3, by omega⟩)
  | none =>
    let (_, ⟨c2, h2⟩) ← c1.expect close
    pure ((acc.push e).toList, ⟨c2, by omega⟩)
termination_by c.rest.length * 64 + 35

end

/-- Statements up to the end of input. -/
def programItems (c : Cursor) (acc : Array Stmt) : Except Diagnostic ((List Stmt) × Within c) :=
  match c.peekKind with
  | .eof => .ok (acc.toList, ⟨c, Nat.le_refl _⟩)
  | _ => do
    let (s, ⟨d, hd⟩) ← statement c
    let (r, ⟨e, he⟩) ← programItems d (acc.push s)
    pure (r, ⟨e, by omega⟩)
termination_by c.rest.length

/-- The cursor at the start of a token list that ends with the end-of-input token. -/
def Cursor.start (tokens : List Token) : Cursor :=
  let eofAt := (tokens.getLast?.map (·.span.start)).getD 0
  ⟨tokens.filter (·.kind ≠ .eof), 0, eofAt⟩

end Sigh.Parse

namespace Sigh

open Parse in
/-- Reads the tokens of a whole program: one or more statements. -/
def Program.ofTokens (tokens : List Token) : Except Diagnostic Program := do
  let c := Cursor.start tokens
  let start := c.peek.span.start
  let (first, ⟨c1, _⟩) ← statement c
  let (more, ⟨c2, _⟩) ← programItems c1 #[]
  pure ⟨first :: more, c2.spanFrom start⟩

open Parse in
/-- Reads the tokens of a single expression, which must reach the end of input. -/
def Expr.ofTokens (tokens : List Token) : Except Diagnostic Expr := do
  let c := Cursor.start tokens
  let (e, ⟨c1, _⟩) ← expression c
  if c1.peekKind = .eof then pure e else throw (c1.unexpected "end of input")

end Sigh
