import Mathlib
import Sigh.Syntax.Parse

namespace Sigh

/-- The span from `start` to the end of token `last`. -/
def Span.upTo (start : Nat) (last : Token) : Span := ⟨start, max last.span.stop start⟩

/-- The span from the first to the last of the tokens. -/
def Span.ofTokens : List Token → Span
  | [] => ⟨0, 0⟩
  | t :: rest => Span.upTo t.span.start (rest.getLast?.getD t)

namespace Grammar

open Parse (levelOp? startsExpression)

/-- The precedence level of a binary operator token, from 0 for `||` to 4 for `* / % @`. -/
def opLevel? : TokenKind → Option Nat
  | .barBar => some 0
  | .ampAmp => some 1
  | .equalEqual | .bangEqual | .lessEqual | .greaterEqual | .less | .greater => some 2
  | .plus | .minus => some 3
  | .star | .slash | .percent | .atSign => some 4
  | _ => none

/-- Whether a token of kind `k` extends a finished operand of level `level`: an operator of that
level or a tighter one, or the start of a suffix. -/
def extendsOperand (level : Nat) (k : TokenKind) : Bool :=
  (match opLevel? k with
    | some l => level ≤ l
    | none => false) || k == .dot || k == .lBracket || k == .lParen

/-- Whether a token of kind `k` extends a finished expression. -/
def continuesExpression (k : TokenKind) : Bool := k == .equal || extendsOperand 0 k

/-- Whether the first of the tokens, if any, leaves a finished expression before it alone. -/
def Ends (S : List Token) : Prop := ∀ t ∈ S.head?, continuesExpression t.kind = false

end Grammar

open Grammar Parse in
/-- The token kinds that may not directly follow a statement. -/
def Stmt.forbids : Stmt → TokenKind → Bool
  | .var .., k | .expr .., k | .ret (some _) _, k => continuesExpression k
  | .ret none _, k => startsExpression k
  | .sizedArray .., k => k == .lBracket || k == .equal
  | .ifElse _ t none _, k => k == .kwElse || t.forbids k
  | .ifElse _ _ (some e) _, k => e.forbids k
  | .whileLoop _ b _, k => b.forbids k
  | .block .., _ | .fnDecl .., _ | .structDecl .., _ => false

namespace Grammar

open Parse (levelOp? startsExpression withinElementLimit)

/-- `S` spells the type `t`: a name followed by `[]` levels, each spanning from the name. -/
inductive IsTypeSuffixes (start : Nat) : TypeExpr → List Token → TypeExpr → Prop
  | done {t} : IsTypeSuffixes start t [] t
  | more {t S r} {lb rb : Token} : lb.kind = .lBracket → rb.kind = .rBracket →
      IsTypeSuffixes start (.array t (Span.upTo start rb)) S r →
      IsTypeSuffixes start t (lb :: rb :: S) r

inductive IsType : List Token → TypeExpr → Prop
  | mk {S t} {n : Token} : n.kind = .ident →
      IsTypeSuffixes n.span.start (.named n.text n.span) S t → IsType (n :: S) t

/-- `name: Type`. -/
inductive IsBinding : List Token → Binding → Prop
  | mk {S t} {n col : Token} : n.kind = .ident → col.kind = .colon → IsType S t →
      IsBinding (n :: col :: S) ⟨⟨n.text, n.span⟩, t⟩

/-- Bindings separated by commas, at least one. -/
inductive IsBindings : List Token → List Binding → Prop
  | one {S b} : IsBinding S b → IsBindings S [b]
  | more {S₁ S₂ b bs} {comma : Token} : IsBinding S₁ b → comma.kind = .comma →
      IsBindings S₂ bs → IsBindings (S₁ ++ comma :: S₂) (b :: bs)

inductive IsParams : List Token → List Binding → Prop
  | nil : IsParams [] []
  | items {S bs} : IsBindings S bs → IsParams S bs

/-- The result type of a function, if it names one. -/
inductive IsResult : List Token → Option TypeExpr → Prop
  | none : IsResult [] none
  | some {S t} {col : Token} : col.kind = .colon → IsType S t → IsResult (col :: S) (some t)

/-- Sizes `[n]` of a sized array, each below `2 ^ 64`. -/
inductive IsDims : List Token → List Nat → Prop
  | nil : IsDims [] []
  | more {S ns} {lb k rb : Token} : lb.kind = .lBracket → k.kind = .intLiteral →
      k.text.toNat! < 2 ^ 64 → rb.kind = .rBracket → IsDims S ns →
      IsDims (lb :: k :: rb :: S) (k.text.toNat! :: ns)

mutual
/-- `S` spells the expression `e`: an operand of `||`, or an assignment to one. -/
inductive IsExpr : List Token → Expr → Prop
  | operand {S e} : IsBinary 0 S e → IsExpr S e
  | assign {S₁ S₂ target value} {eq : Token} : IsBinary 0 S₁ target → eq.kind = .equal →
      IsExpr S₂ value → IsExpr (S₁ ++ eq :: S₂) (.assign target value (target.span.merge value.span))

/-- Operands of level `level` joined by the operators of that level, from the left. -/
inductive IsBinary : Nat → List Token → Expr → Prop
  | mk {level S₁ S₂ first e} : IsOperand level S₁ first → IsChain level first S₂ e →
      IsBinary level (S₁ ++ S₂) e

/-- Operators of level `level` with their right operands, after the operand `left`. -/
inductive IsChain : Nat → Expr → List Token → Expr → Prop
  | done {level e} : IsChain level e [] e
  | more {level left S₁ S₂ right e op} {t : Token} : levelOp? level t.kind = some op →
      IsOperand level S₁ right →
      IsChain level (.binary op left right (left.span.merge right.span)) S₂ e →
      IsChain level left (t :: S₁ ++ S₂) e

/-- An operand of level `level`: one of the next level, or below the last level a prefix
expression. -/
inductive IsOperand : Nat → List Token → Expr → Prop
  | tighter {level S e} : level < 4 → IsBinary (level + 1) S e → IsOperand level S e
  | tightest {level S e} : ¬level < 4 → IsPrefix S e → IsOperand level S e

inductive IsPrefix : List Token → Expr → Prop
  | not {S e} {bang : Token} : bang.kind = .bang → IsPrefix S e →
      IsPrefix (bang :: S) (.not e (bang.span.merge e.span))
  | suffix {S e} : IsSuffix S e → IsPrefix S e

/-- A basic expression followed by suffixes. -/
inductive IsSuffix : List Token → Expr → Prop
  | mk {S₁ S₂ b e} : IsBasic S₁ b → IsSuffixes b S₂ e → IsSuffix (S₁ ++ S₂) e

/-- Field accesses, indexing and calls after `e`, each spanning from the start of `e`. -/
inductive IsSuffixes : Expr → List Token → Expr → Prop
  | done {e} : IsSuffixes e [] e
  | field {e S r} {dot name : Token} : dot.kind = .dot → name.kind = .ident →
      IsSuffixes (.field e ⟨name.text, name.span⟩ (Span.upTo e.span.start name)) S r →
      IsSuffixes e (dot :: name :: S) r
  | index {e i S₁ S₂ r} {lb rb : Token} : lb.kind = .lBracket → IsExpr S₁ i →
      rb.kind = .rBracket → IsSuffixes (.index e i (Span.upTo e.span.start rb)) S₂ r →
      IsSuffixes e (lb :: S₁ ++ rb :: S₂) r
  | call {e args S₁ S₂ r} {lp rp : Token} : lp.kind = .lParen → IsArgs S₁ args →
      rp.kind = .rParen → IsSuffixes (.call e args (Span.upTo e.span.start rp)) S₂ r →
      IsSuffixes e (lp :: S₁ ++ rp :: S₂) r

/-- Literals, names, constructors, parentheses and array literals. An integer literal lies in
the 64-bit signed range, its sign included. -/
inductive IsBasic : List Token → Expr → Prop
  | ctor {d n : Token} : d.kind = .dollar → n.kind = .ident →
      IsBasic [d, n] (.ctor ⟨n.text, n.span⟩ (Span.upTo d.span.start n))
  | ref {t : Token} : t.kind = .ident → IsBasic [t] (.ref t.text (Span.upTo t.span.start t))
  | int {t : Token} : t.kind = .intLiteral → (t.text.toNat! : Int) < 2 ^ 63 →
      IsBasic [t] (.int (Int64.ofInt t.text.toNat!) (Span.upTo t.span.start t))
  | negInt {m t : Token} : m.kind = .minus → t.kind = .intLiteral → t.text.toNat! ≤ 2 ^ 63 →
      IsBasic [m, t] (.int (Int64.ofInt (-(t.text.toNat! : Int))) (Span.upTo m.span.start t))
  | float {t : Token} : t.kind = .floatLiteral →
      IsBasic [t] (.float ((Decimal.readFloat? t.text).getD 0.0) (Span.upTo t.span.start t))
  | negFloat {m t : Token} : m.kind = .minus → t.kind = .floatLiteral →
      IsBasic [m, t] (.float (-((Decimal.readFloat? t.text).getD 0.0)) (Span.upTo m.span.start t))
  | str {t : Token} : t.kind = .stringLiteral →
      IsBasic [t] (.str (unescape t.text) (Span.upTo t.span.start t))
  | paren {S e} {lp rp : Token} : lp.kind = .lParen → IsExpr S e → rp.kind = .rParen →
      IsBasic (lp :: S ++ [rp]) (.paren e (Span.upTo lp.span.start rp))
  | array {S items} {lb rb : Token} : lb.kind = .lBracket → IsArgs S items → rb.kind = .rBracket →
      IsBasic (lb :: S ++ [rb]) (.array items (Span.upTo lb.span.start rb))

/-- Expressions separated by commas, possibly none. -/
inductive IsArgs : List Token → List Expr → Prop
  | nil : IsArgs [] []
  | items {S es} : IsItems S es → IsArgs S es

/-- Expressions separated by commas, at least one. -/
inductive IsItems : List Token → List Expr → Prop
  | one {S e} : IsExpr S e → IsItems S [e]
  | more {S₁ S₂ e es} {comma : Token} : IsExpr S₁ e → comma.kind = .comma → IsItems S₂ es →
      IsItems (S₁ ++ comma :: S₂) (e :: es)
end

mutual
/-- `S` spells the statement `s`, which spans its tokens. -/
inductive IsStmt : List Token → Stmt → Prop
  | mk {S mk s} : IsForm S mk → s = mk (Span.ofTokens S) → IsStmt S s

/-- `S` spells a statement with its span left open. -/
inductive IsForm : List Token → (Span → Stmt) → Prop
  | block {S body span} : IsBlock S body span → IsForm S (.block body)
  | var {S₁ S₂ ty init} {v n col eq : Token} : v.kind = .kwVar → n.kind = .ident →
      col.kind = .colon → IsType S₁ ty → eq.kind = .equal → IsExpr S₂ init →
      IsForm (v :: n :: col :: S₁ ++ eq :: S₂) (.var ⟨n.text, n.span⟩ ty init)
  | sizedArray {S dims} {v n col b : Token} : v.kind = .kwVar → n.kind = .ident →
      col.kind = .colon → b.kind = .ident → IsDims S dims → dims ≠ [] →
      withinElementLimit dims = true →
      IsForm (v :: n :: col :: b :: S) (.sizedArray ⟨n.text, n.span⟩ (.named b.text b.span) dims)
  | fnDecl {S d} : IsFun S d → IsForm S (.fnDecl d)
  | structDecl {S d} : IsStruct S d → IsForm S (.structDecl d)
  | ifThen {S₁ S₂ c t} {i : Token} : i.kind = .kwIf → IsExpr S₁ c → Ends S₂ → IsStmt S₂ t →
      IsForm (i :: S₁ ++ S₂) (.ifElse c t none)
  | ifElse {S₁ S₂ S₃ c t e} {i el : Token} : i.kind = .kwIf → IsExpr S₁ c → Ends S₂ →
      IsStmt S₂ t → t.forbids .kwElse = false → el.kind = .kwElse → IsStmt S₃ e →
      IsForm (i :: S₁ ++ S₂ ++ el :: S₃) (.ifElse c t (some e))
  | whileLoop {S₁ S₂ c b} {w : Token} : w.kind = .kwWhile → IsExpr S₁ c → Ends S₂ →
      IsStmt S₂ b → IsForm (w :: S₁ ++ S₂) (.whileLoop c b)
  | ret {r : Token} : r.kind = .kwReturn → IsForm [r] (.ret none)
  | retValue {S e} {r : Token} : r.kind = .kwReturn → IsExpr S e → IsForm (r :: S) (.ret (some e))
  | expr {S e} : IsExpr S e → IsForm S (.expr e)

/-- Statements side by side, each followed by a token it allows. -/
inductive IsStmts : List Token → List Stmt → Prop
  | nil : IsStmts [] []
  | cons {S₁ S₂ s ss} : IsStmt S₁ s → IsStmts S₂ ss → (∀ t ∈ S₂.head?, s.forbids t.kind = false) →
      IsStmts (S₁ ++ S₂) (s :: ss)

/-- `{ statements }`, with the span of its braces. -/
inductive IsBlock : List Token → List Stmt → Span → Prop
  | mk {S ss} {lb rb : Token} : lb.kind = .lBrace → IsStmts S ss → rb.kind = .rBrace →
      IsBlock (lb :: S ++ [rb]) ss (Span.upTo lb.span.start rb)

/-- `fun name(params): Result { body }`, the result type optional. -/
inductive IsFun : List Token → FunDecl → Prop
  | mk {S₁ S₂ S₃ ps result body bodySpan} {f n lp rp : Token} : f.kind = .kwFun →
      n.kind = .ident → lp.kind = .lParen → IsParams S₁ ps → rp.kind = .rParen →
      IsResult S₂ result → IsBlock S₃ body bodySpan →
      IsFun (f :: n :: lp :: S₁ ++ rp :: S₂ ++ S₃) ⟨⟨n.text, n.span⟩, ps, result, body, bodySpan⟩

/-- `struct Name { members }`. -/
inductive IsStruct : List Token → StructDecl → Prop
  | mk {S fields methods} {s n lb rb : Token} : s.kind = .kwStruct → n.kind = .ident →
      lb.kind = .lBrace → IsMembers S fields methods → rb.kind = .rBrace →
      IsStruct (s :: n :: lb :: S ++ [rb]) ⟨⟨n.text, n.span⟩, fields, methods⟩

/-- Fields `var name: Type` and methods in any order; each list keeps its order. -/
inductive IsMembers : List Token → List Binding → List FunDecl → Prop
  | nil : IsMembers [] [] []
  | field {S₁ S₂ b fields methods} {v : Token} : v.kind = .kwVar → IsBinding S₁ b →
      IsMembers S₂ fields methods → IsMembers (v :: S₁ ++ S₂) (b :: fields) methods
  | method {S₁ S₂ d fields methods} : IsFun S₁ d → IsMembers S₂ fields methods →
      IsMembers (S₁ ++ S₂) fields (d :: methods)
end

/-- The tokens of a whole source text, its end-of-input token left out, spell the program: one
or more statements, the program spanning all of them. -/
def IsProgram (tokens : List Token) (p : Program) : Prop :=
  IsStmts (tokens.filter (·.kind ≠ .eof)) p.statements ∧ p.statements ≠ [] ∧
    p.span = Span.ofTokens (tokens.filter (·.kind ≠ .eof))

/-- The tokens of a whole source text, its end-of-input token left out, spell the expression. -/
def IsWholeExpr (tokens : List Token) (e : Expr) : Prop :=
  IsExpr (tokens.filter (·.kind ≠ .eof)) e

end Grammar

end Sigh
