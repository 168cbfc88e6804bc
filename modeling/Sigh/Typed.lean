import Sigh.Ty
import Sigh.Syntax

namespace Sigh.Typed

/-- Properties of array values. -/
inductive Property where
  | length
  | count
  | sum
  | avg
  | nDim
  deriving DecidableEq, Repr, Inhabited

/-- The property with a given name. -/
def Property.ofName? : String → Option Property
  | "length" => some .length
  | "count" => some .count
  | "sum" => some .sum
  | "avg" => some .avg
  | "nDim" => some .nDim
  | _ => none

/-- Operand shapes of `@`. -/
inductive DotShape where
  | vectors
  | vectorByColumn
  | matrices
  deriving DecidableEq, Repr, Inhabited

/-- The shape of `@` on operands of the given array depths. -/
def DotShape.ofDepths? : Nat → Nat → Option DotShape
  | 1, 1 => some .vectors
  | 1, 2 => some .vectorByColumn
  | 2, 2 => some .matrices
  | _, _ => none

mutual
/-- A typed expression. -/
structure Expr where
  kind : ExprKind
  ty : Ty
  span : Span
/-- The forms of typed expressions. -/
inductive ExprKind where
  | int (value : Int64)
  | float (value : Float)
  | str (value : String)
  | bool (value : Bool)
  | null
  | local (hops slot : Nat)
  | receiverField (hops field : Nat)
  | receiverMethod (hops fn : Nat)
  | function (hops fn : Nat)
  | ctor (hops decl : Nat)
  | typeValue (t : Ty)
  | print
  | array (items : List Expr)
  | field (stem : Expr) (field : Nat)
  | method (stem : Expr) (fn : Nat)
  | property (stem : Expr) (p : Property)
  | index (array index : Expr)
  | call (callee : Expr) (args : List Expr)
  | not (operand : Expr)
  | binary (op : BinOp) (left right : Expr)
  | logic (op : BinOp) (left right : Expr)
  | concat (left right : Expr)
  | elementWise (op : BinOp) (left right : Expr)
  | elementWiseMethod (fn : Nat) (left right : Expr)
  | dotProduct (left right : Expr)
  | assign (target : Place) (value : Expr)
  | intToFloat (inner : Expr)
/-- The left side of an assignment. -/
inductive Place where
  | local (hops slot : Nat)
  | receiverField (hops field : Nat)
  | field (stem : Expr) (field : Nat)
  | index (array index : Expr)
end

instance : Inhabited Expr := ⟨⟨.null, .null, default⟩⟩

/-- `e`, converted to a float where a float is expected and `e` is an integer. -/
def Expr.coerceTo (e : Expr) (expected : Ty) : Expr :=
  match e.ty, expected with
  | .int, .float => ⟨.intToFloat e, .float, e.span⟩
  | _, _ => e

mutual
/-- Statements with the number of slots of the frame they run in. -/
structure Block where
  statements : List Stmt
  slots : Nat
  span : Span
/-- A typed statement. -/
inductive Stmt where
  | block (b : Block) (span : Span)
  | declare (slot : Nat) (value : Expr) (span : Span)
  | sizedArray (slot : Nat) (element : Ty) (dims : List Nat) (span : Span)
  | ifElse (cond : Expr) (thenBranch : Stmt) (elseBranch : Option Stmt) (span : Span)
  | whileLoop (cond : Expr) (body : Stmt) (span : Span)
  | ret (value : Option Expr) (span : Span)
  | expr (e : Expr) (span : Span)
end

instance : Inhabited Block := ⟨⟨[], 0, default⟩⟩

/-- A function or method. A method's body may use the receiver of its owner struct. -/
structure Function where
  id : Nat
  name : String
  params : List (String × Ty)
  result : Ty
  body : Block
  owner : Option Nat
  span : Span
  deriving Inhabited

/-- The type of a function's value. -/
def Function.ty (f : Function) : Ty := .fn (f.params.map (·.2)) f.result

/-- A struct declaration: fields in order, and methods by name and function number. -/
structure StructDef where
  id : Nat
  name : String
  fields : List (String × Ty)
  methods : List (String × Nat)
  deriving Inhabited

/-- A checked program: the root block, and all functions and structs by number. -/
structure Program where
  body : Block
  functions : Array Function
  structs : Array StructDef
  deriving Inhabited

end Sigh.Typed
