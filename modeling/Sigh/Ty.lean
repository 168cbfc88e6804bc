namespace Sigh

/-- A static type. `null` is the type of `null` and of the elements of `[]`; `type` is the type of
an expression that names a type. -/
inductive Ty where
  | int
  | float
  | bool
  | string
  | void
  | null
  | type
  | array (component : Ty)
  | struct (id : Nat) (name : String)
  | fn (params : List Ty) (result : Ty)
  deriving Repr, Inhabited

namespace Ty

mutual
/-- Structural equality of types. -/
def beq : Ty → Ty → Bool
  | int, int | float, float | bool, bool | string, string => true
  | void, void | null, null | type, type => true
  | array a, array b => beq a b
  | struct i n, struct j m => i == j && n == m
  | fn ps r, fn qs s => beqList ps qs && beq r s
  | _, _ => false
/-- Structural equality of lists of types. -/
def beqList : List Ty → List Ty → Bool
  | [], [] => true
  | a :: as, b :: bs => beq a b && beqList as bs
  | _, _ => false
end

instance : BEq Ty := ⟨beq⟩

/-- `Int`, `Float` and `Bool`, held by value. -/
def isPrimitive : Ty → Bool
  | int | float | bool => true
  | _ => false

def isVoid : Ty → Bool
  | void => true
  | _ => false

/-- Everything but the primitives and `Void`: the types that admit `null`. -/
def isReference (t : Ty) : Bool := !t.isPrimitive && !t.isVoid

def isNumeric : Ty → Bool
  | int | float => true
  | _ => false

/-- The component type of an array type. -/
def component? : Ty → Option Ty
  | array c => some c
  | _ => none

/-- The number of nested array levels: `Int` has none, `Int[][]` two. -/
def depth : Ty → Nat
  | array c => c.depth + 1
  | _ => 0

/-- The innermost type that is not an array. -/
def leaf : Ty → Ty
  | array c => c.leaf
  | t => t

/-- `t` wrapped in `n` array levels. -/
def arrayOf (t : Ty) : Nat → Ty
  | 0 => t
  | n + 1 => array (t.arrayOf n)

mutual
/-- The text of a type: structs by name, `T[]` for arrays, `(Int, String) -> Void` for
functions. -/
def text : Ty → String
  | int => "Int"
  | float => "Float"
  | bool => "Bool"
  | string => "String"
  | void => "Void"
  | null => "Null"
  | type => "Type"
  | array c => c.text ++ "[]"
  | struct _ name => name
  | fn ps r => "(" ++ textList ps ++ ") -> " ++ r.text
/-- Types separated by `, `. -/
def textList : List Ty → String
  | [] => ""
  | [t] => t.text
  | t :: ts => t.text ++ ", " ++ textList ts
end

/-- Whether an array component of type `source` may stand where one of type `target` is expected:
`Null` components go anywhere, other components must be equal. -/
def componentAssignable : Ty → Ty → Bool
  | null, _ => true
  | array a, array b => componentAssignable a b
  | a, b => a == b

/-- Whether a value of type `source` may be stored where `target` is expected. -/
def assignable (source target : Ty) : Bool :=
  if source.isVoid || target.isVoid then false
  else
    match source, target with
    | int, float => true
    | null, t => t.isReference
    | array a, array b => componentAssignable a b
    | a, b => a == b

/-- Whether `==` and `!=` apply to operands of these types. -/
def comparable (a b : Ty) : Bool :=
  if a.isVoid || b.isVoid then false
  else a == b || (a.isNumeric && b.isNumeric) || (a.isReference && b.isReference)

/-- The type that both types are assignable to, if one of them is it. -/
def commonSupertype? (a b : Ty) : Option Ty :=
  if a.isVoid || b.isVoid then none
  else if assignable a b then some b
  else if assignable b a then some a
  else none

/-- The result type of `+ - * / %` on two numbers. -/
def numericResult? : Ty → Ty → Option Ty
  | int, int => some int
  | int, float | float, int | float, float => some float
  | _, _ => none

theorem depth_arrayOf (t : Ty) (n : Nat) : (t.arrayOf n).depth = t.depth + n := by
  induction n with
  | zero => rfl
  | succ n ih => simp [arrayOf, depth, ih]; omega

example : (fn [int, string] void).text = "(Int, String) -> Void" := by decide
example : assignable (array null) (array (array int)) = true := by decide
example : assignable (array int) (array float) = false := by decide

end Ty

end Sigh
