import Sigh.Typing.State
import Sigh.Syntax.Print

namespace Sigh.Typing

open Typed (ExprKind Place)

/-- All results, when every one is present. -/
def allChecked {α : Type} (xs : List (Option α)) : Option (List α) := xs.mapM id

/-- The element type that `sum` and `avg` give on an array: `Int` for integers and for `[]`. -/
def numericLeaf (t : Ty) : Option Ty :=
  match t.leaf with
  | .int | .null => some .int
  | .float => some .float
  | _ => none

/-- The type of `left op right` taken on each pair of elements of two arrays of equal depth. -/
def elementWiseType (op : BinOp) : Ty → Ty → Option Ty
  | .array a, .array b =>
    match a, b with
    | .array _, .array _ => (elementWiseType op a b).map .array
    | .array _, _ | _, .array _ => none
    | a, b =>
      if op == .add && (a == .string || b == .string) then
        if !a.isVoid && !b.isVoid then some (.array .string) else none
      else (Ty.numericResult? a b).map .array
  | _, _ => none

/-- The type of `left @ right`: a number for two vectors or a vector and a column, a matrix for
two matrices. -/
def dotProductType (left right : Ty) : Option Ty := do
  let scalar ← Ty.numericResult? (← numericLeaf left) (← numericLeaf right)
  match ← Typed.DotShape.ofDepths? left.depth right.depth with
  | .vectors | .vectorByColumn => some scalar
  | .matrices => some (.array (.array scalar))

/-- A name used as a value. -/
def checkReference (name : String) (span : Span) : CheckM (Option Typed.Expr) := do
  let node (kind : ExprKind) (ty : Ty) : CheckM (Option Typed.Expr) := pure (some ⟨kind, ty, span⟩)
  match ← lookup name with
  | .local hops slot ty => node (.local hops slot) ty
  | .receiverField hops index ty => node (.receiverField hops index) ty
  | .receiverMethod hops fn => node (.receiverMethod hops fn) (← functionInfo fn).ty
  | .function hops fn => node (.function hops fn) (← functionInfo fn).ty
  | .struct _ decl => node (.typeValue (← structType decl)) .type
  | .builtin b =>
    let kind : ExprKind := match b with
      | .type t => .typeValue t
      | .true => .bool true
      | .false => .bool false
      | .null => .null
      | .print => .print
    node kind b.valueType
  | .usedBeforeDeclaration =>
    report span ("variable used before declaration: " ++ name)
    pure none
  | .unresolved =>
    report span ("could not resolve: " ++ name)
    pure none

/-- `$Name`: a function from the field values to an instance. -/
def checkConstructor (name : Ident) (span : Span) : CheckM (Option Typed.Expr) := do
  match ← lookup name.name with
  | .struct hops decl =>
    let params := (← structInfo decl).fields.map (·.2)
    pure (some ⟨.ctor hops decl, .fn params (← structType decl), span⟩)
  | .usedBeforeDeclaration | .unresolved =>
    report name.span ("could not resolve: " ++ name.name)
    pure none
  | _ =>
    report span ("Applying the constructor operator ($) to non-struct reference: " ++ name.name)
    pure none

/-- An array literal: its type is the common supertype of its elements, `Null[]` when empty. -/
def arrayLiteral (items : List (Option Typed.Expr)) (span : Span) : CheckM (Option Typed.Expr) := do
  match allChecked items with
  | none => pure none
  | some items =>
    let mut supertype : Option Ty := none
    for item in items do
      if item.ty.isVoid then
        report item.span "Void-valued expression in array literal"
        return none
      match supertype with
      | none => supertype := some item.ty
      | some current =>
        match Ty.commonSupertype? current item.ty with
        | some t => supertype := some t
        | none =>
          report span "Could not find common supertype in array literal."
          return none
    let component := supertype.getD .null
    pure (some ⟨.array (items.map (·.coerceTo component)), .array component, span⟩)

/-- `stem.name`: an array property, a field or a method of a struct. -/
def fieldAccess (stem : Typed.Expr) (name : Ident) (span : Span) : CheckM (Option Typed.Expr) := do
  match stem.ty with
  | .array _ =>
    match Typed.Property.ofName? name.name with
    | none =>
      report name.span ("Trying to access an unknown array property: " ++ name.name)
      pure none
    | some p =>
      let ty? : Option Ty := match p with
        | .length | .count | .nDim => some .int
        | .sum | .avg => numericLeaf stem.ty
      match ty? with
      | some ty => pure (some ⟨.property stem p, ty, span⟩)
      | none =>
        report span ("Trying to aggregate (" ++ name.name ++ ") a non-numeric array of type " ++
          stem.ty.text)
        pure none
  | .struct decl structName =>
    let info ← structInfo decl
    match info.fields.findIdx? (·.1 == name.name) with
    | some index => pure (some ⟨.field stem index, (info.fields[index]?.map (·.2)).getD .null, span⟩)
    | none =>
      match info.methods.lookup name.name with
      | some fn => pure (some ⟨.method stem fn, (← functionInfo fn).ty, span⟩)
      | none =>
        report name.span ("struct " ++ structName ++ " has no field or method named " ++ name.name)
        pure none
  | other =>
    report span ("Trying to access a field on an expression of type " ++ other.text)
    pure none

/-- `array[index]`. -/
def indexAccess (array index : Typed.Expr) (span : Span) : CheckM (Option Typed.Expr) := do
  if !(index.ty == .int) then
    report index.span "Indexing an array using a non-int-valued expression."
    return none
  match array.ty.component? with
  | some c => pure (some ⟨.index array index, c, span⟩)
  | none =>
    report span ("Trying to index a non-array expression of type " ++ array.ty.text)
    pure none

/-- Arguments for parameters of the given types: as many, each assignable, integers converted
where floats are expected. Every argument is checked before the result is given. -/
def checkArguments (params : List Ty) (args : List Typed.Expr) (span : Span) :
    CheckM (Option (List Typed.Expr)) := do
  if params.length ≠ args.length then
    report span ("wrong number of arguments, expected " ++ toString params.length ++ " but got " ++
      toString args.length)
    return none
  let mut ok := true
  let mut checked := #[]
  for (i, arg, param) in (List.range args.length).zip (args.zip params) do
    if !Ty.assignable arg.ty param then
      report arg.span ("incompatible argument provided for argument " ++ toString i ++ ": expected " ++
        param.text ++ " but got " ++ arg.ty.text)
      ok := false
    checked := checked.push (arg.coerceTo param)
  pure (if ok then some checked.toList else none)

/-- `callee(args)`; `written` is the callee as written, for the diagnostic. -/
def callOf (written : Expr) (callee : Typed.Expr) (args : List Typed.Expr) (span : Span) :
    CheckM (Option Typed.Expr) := do
  match callee.ty with
  | .fn params result =>
    match ← checkArguments params args span with
    | some args => pure (some ⟨.call callee args, result, span⟩)
    | none => pure none
  | _ =>
    report written.span ("trying to call a non-function expression: " ++ written.text)
    pure none

/-- The method of struct `decl` that an operator calls. -/
def operatorMethod (decl : Nat) (methodName : String) (op : BinOp) (span : Span) :
    CheckM (Option (StructInfo × Nat)) := do
  let info ← structInfo decl
  match info.methods.lookup methodName with
  | some fn => pure (some (info, fn))
  | none =>
    report span ("struct " ++ info.name ++ " has no method " ++ methodName ++
      " to support operator " ++ op.symbol)
    pure none

/-- `left op right` on two arrays of structs of equal depth: the operator method on each pair of
elements. -/
def elementWiseOverload (decl : Nat) (methodName : String) (op : BinOp) (left right : Typed.Expr)
    (span : Span) : CheckM (Option Typed.Expr) := do
  let some (info, fn) ← operatorMethod decl methodName op span | return none
  let f ← functionInfo fn
  match f.params with
  | [(_, param)] =>
    let argument := right.ty.leaf
    if !Ty.assignable argument param then
      report right.span ("incompatible argument provided for argument 0: expected " ++ param.text ++
        " but got " ++ argument.text)
      return none
    if f.result.isVoid then
      report span ("method " ++ methodName ++ " of struct " ++ info.name ++
        " returns Void and cannot be applied element-wise")
      return none
    pure (some ⟨.elementWiseMethod fn left right, f.result.arrayOf left.ty.depth, span⟩)
  | _ =>
    report span ("method " ++ methodName ++ " of struct " ++ info.name ++
      " must take one parameter to support element-wise " ++ op.symbol)
    pure none

/-- `left op right` on a struct: a call of its operator method. -/
def overload (decl : Nat) (methodName : String) (op : BinOp) (left right : Typed.Expr)
    (span : Span) : CheckM (Option Typed.Expr) := do
  let some (_, fn) ← operatorMethod decl methodName op span | return none
  let f ← functionInfo fn
  let some args ← checkArguments (f.params.map (·.2)) [right] span | return none
  let callee : Typed.Expr := ⟨.method left fn, f.ty, left.span⟩
  pure (some ⟨.call callee args, f.result, span⟩)

/-- A binary operation on two checked operands. -/
def binaryOf (op : BinOp) (left right : Typed.Expr) (span : Span) : CheckM (Option Typed.Expr) := do
  let l := left.ty
  let r := right.ty
  let mismatch : CheckM (Option Typed.Expr) := do
    report span ("trying to " ++ op.verb ++ " " ++ l.text ++ " with " ++ r.text)
    pure none
  if op == .add && (l == .string || r == .string) && !l.isVoid && !r.isVoid then
    return some ⟨.concat left right, .string, span⟩
  if op.isArithmetic then
    if let some t := Ty.numericResult? l r then
      return some ⟨.binary op left right, t, span⟩
    match l.leaf, op.overloadMethod? with
    | .struct decl _, some m =>
      if l.depth > 0 && l.depth == r.depth then
        return ← elementWiseOverload decl m op left right span
    | _, _ => pure ()
    if op != .rem then
      if let some t := elementWiseType op l r then
        return some ⟨.elementWise op left right, t, span⟩
    match l, op.overloadMethod? with
    | .struct decl _, some m => return ← overload decl m op left right span
    | _, _ => return ← mismatch
  if op == .dot then
    match dotProductType l r with
    | some t => return some ⟨.dotProduct left right, t, span⟩
    | none => return ← mismatch
  if op.isOrdering then
    let mut ok := true
    for operand in [left, right] do
      if !operand.ty.isNumeric then
        report operand.span ("Attempting to perform arithmetic comparison on non-numeric type: " ++
          operand.ty.text)
        ok := false
    if !ok then return none
  else if op.isEquality then
    if !Ty.comparable l r then
      report span ("Trying to compare incomparable types " ++ l.text ++ " and " ++ r.text)
      return none
  else if op.isLogic then
    let mut ok := true
    for operand in [left, right] do
      if !(operand.ty == .bool) then
        report operand.span ("Attempting to perform binary logic on non-boolean type: " ++
          operand.ty.text)
        ok := false
    if !ok then return none
    return some ⟨.logic op left right, .bool, span⟩
  pure (some ⟨.binary op left right, .bool, span⟩)

/-- `target = value` on a checked place and value. -/
def assignOf (place : Place × Ty) (value : Typed.Expr) (span : Span) : CheckM (Option Typed.Expr) := do
  let (target, targetTy) := place
  if !Ty.assignable value.ty targetTy then
    report span "Trying to assign a value to a non-compatible lvalue."
    return none
  let value := value.coerceTo targetTy
  pure (some ⟨.assign target value, value.ty, span⟩)

/-- Reports a target that cannot be assigned to. -/
def notAssignable (span : Span) : CheckM (Option (Place × Ty)) := do
  report span "Trying to assign to an non-lvalue expression."
  pure none

mutual
/-- Checks an expression. -/
def checkExpr : Expr → CheckM (Option Typed.Expr)
  | .int v span => pure (some ⟨.int v, .int, span⟩)
  | .float v span => pure (some ⟨.float v, .float, span⟩)
  | .str v span => pure (some ⟨.str v, .string, span⟩)
  | .ref name span => checkReference name span
  | .ctor name span => checkConstructor name span
  | .array items span => do arrayLiteral (← checkExprs items) span
  | .paren inner span => do
    pure ((← checkExpr inner).map fun e => { e with span := span })
  | .field stem name span => do
    match ← checkExpr stem with
    | some s => fieldAccess s name span
    | none => pure none
  | .index a i span => do
    let a ← checkExpr a
    let i ← checkExpr i
    match a, i with
    | some a, some i => indexAccess a i span
    | _, _ => pure none
  | .call callee args span => do
    let c ← checkExpr callee
    let as ← checkExprs args
    match c, allChecked as with
    | some c, some as => callOf callee c as span
    | _, _ => pure none
  | .not operand span => do
    let some o ← checkExpr operand | return none
    if !(o.ty == .bool) then
      report span ("trying to negate type: " ++ o.ty.text)
      return none
    pure (some ⟨.not o, .bool, span⟩)
  | .binary op l r span => do
    let l ← checkExpr l
    let r ← checkExpr r
    match l, r with
    | some l, some r => binaryOf op l r span
    | _, _ => pure none
  | .assign target value span => do
    let p ← checkPlace target
    let v ← checkExpr value
    match p, v with
    | some p, some v => assignOf p v span
    | _, _ => pure none
/-- Checks expressions left to right. -/
def checkExprs : List Expr → CheckM (List (Option Typed.Expr))
  | [] => pure []
  | e :: es => do
    let first ← checkExpr e
    pure (first :: (← checkExprs es))
/-- Checks the target of an assignment: a variable, a field or an element. -/
def checkPlace : Expr → CheckM (Option (Place × Ty))
  | .paren inner _ => checkPlace inner
  | .ref name span => do
    match ← checkReference name span with
    | some ⟨.local hops slot, ty, _⟩ => pure (some (.local hops slot, ty))
    | some ⟨.receiverField hops field, ty, _⟩ => pure (some (.receiverField hops field, ty))
    | some _ => notAssignable span
    | none => pure none
  | .field stem name span => do
    let some s ← checkExpr stem | return none
    match ← fieldAccess s name span with
    | some ⟨.field stem field, ty, _⟩ => pure (some (.field stem field, ty))
    | some _ => notAssignable span
    | none => pure none
  | .index a i span => do
    let a ← checkExpr a
    let i ← checkExpr i
    match a, i with
    | some a, some i =>
      match ← indexAccess a i span with
      | some ⟨.index array index, ty, _⟩ => pure (some (.index array index, ty))
      | some _ => notAssignable span
      | none => pure none
    | _, _ => pure none
  | e => notAssignable e.span
end

end Sigh.Typing
