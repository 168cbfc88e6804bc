import Sigh.Value.Render
import Sigh.Syntax
import Sigh.Arith.Remainder

namespace Sigh

/-- `L op R` with the kinds of the operands. -/
def unsupportedFault (op : BinOp) (l r : Value) : Fault :=
  .unsupportedOperands (l.kindName ++ " " ++ op.symbol ++ " " ++ r.kindName)

/-- A null pointer with `context` if either operand is `null`, else `other`. -/
def nullOr (l r : Value) (context : String) (other : Fault) : Fault :=
  match l, r with
  | .null, _ | _, .null => .nullPointer context
  | _, _ => other

/-- A number as a float. -/
def Value.asFloat : Value → Float
  | .int n => n.toFloat
  | .float x => x
  | _ => 0.0 / 0.0

def Value.isNumber : Value → Bool
  | .int _ | .float _ => true
  | _ => false

def Value.isStr : Value → Bool
  | .str _ => true
  | _ => false

/-- `+ - * / %` on two values; `text` gives the text of a value for joining strings. With
`strict`, a float division by zero is a fault instead of an infinity. -/
def arithmetic (text : Value → String) (op : BinOp) (l r : Value) (strict : Bool) :
    Except Fault Value :=
  match l, r with
  | .int a, .int b =>
    match op with
    | .add => .ok (.int (a + b))
    | .sub => .ok (.int (a - b))
    | .mul => .ok (.int (a * b))
    | .div => if b == 0 then .error .divisionByZero else .ok (.int (a / b))
    | .rem => if b == 0 then .error .divisionByZero else .ok (.int (a % b))
    | _ => .error (unsupportedFault op l r)
  | _, _ =>
    if l.isNumber && r.isNumber then
      let x := l.asFloat
      let y := r.asFloat
      match op with
      | .add => .ok (.float (x + y))
      | .sub => .ok (.float (x - y))
      | .mul => .ok (.float (x * y))
      | .div => if strict && y == 0.0 then .error .divisionByZero else .ok (.float (x / y))
      | .rem => .ok (.float (Arith.truncRem x y))
      | _ => .error (unsupportedFault op l r)
    else if op == .add && (l.isStr || r.isStr) then .ok (.str (text l ++ text r))
    else .error (nullOr l r "arithmetic on null" (unsupportedFault op l r))

/-- `< <= > >=` on two numbers; any comparison with NaN is false. -/
def compare (op : BinOp) (l r : Value) : Except Fault Bool :=
  let decide (lt eq : Bool) : Except Fault Bool :=
    match op with
    | .lt => .ok lt
    | .le => .ok (lt || eq)
    | .gt => .ok (!lt && !eq)
    | .ge => .ok (!lt)
    | _ => .error (unsupportedFault op l r)
  match l, r with
  | .int a, .int b => decide (a < b) (a == b)
  | _, _ =>
    if l.isNumber && r.isNumber then
      let x := l.asFloat
      let y := r.asFloat
      if x.isNaN || y.isNaN then .ok false else decide (x < y) (x == y)
    else .error (nullOr l r "comparing null" (unsupportedFault op l r))

/-- Lifts a computation without effects on the machine. -/
def liftFault {α : Type} (r : Except Fault α) : Op α :=
  match r with
  | .ok a => pure a
  | .error f => throw f

/-- `arithmetic` with the texts of values on the current machine. -/
def arithmeticOn (p : Typed.Program) (op : BinOp) (l r : Value) (strict : Bool) : Op Value := do
  let m ← get
  liftFault (arithmetic (render p m) op l r strict)

/-- `op` on each pair of elements, through nested arrays of equal lengths; `fuel` bounds the
nesting. -/
def elementWiseWith (p : Typed.Program) (op : BinOp) : Nat → Value → Value → Op Value
  | 0, _, _ => throw (.internal "nesting too deep")
  | fuel + 1, l, r =>
    match l, r with
    | .array _, .array _ => do
      let ls ← arrayItems l "element-wise operation on null"
      let rs ← arrayItems r "element-wise operation on null"
      if ls.size ≠ rs.size then
        throw (.shapeMismatch ("element-wise " ++ op.symbol ++ " on arrays of length " ++
          toString ls.size ++ " and " ++ toString rs.size))
      let items ← (ls.zip rs).mapM fun (a, b) => elementWiseWith p op fuel a b
      newArray items
    | .null, _ | _, .null => throw (.nullPointer "element-wise operation on null")
    | .array _, _ | _, .array _ =>
      throw (.shapeMismatch "element-wise operation on arrays of different depths")
    | _, _ => arithmeticOn p op l r true

/-- `op` on each pair of elements of two arrays. -/
def elementWise (p : Typed.Program) (op : BinOp) (l r : Value) : Op Value := do
  elementWiseWith p op ((← get).objects.size + 1) l r

/-- Zero as an integer or as a float. -/
def zeroOf (float : Bool) : Value := if float then .float 0.0 else .int 0

/-- An integer as a float when `float` is set. -/
def Value.toFloatIf (float : Bool) : Value → Value
  | .int n => if float then .float n.toFloat else .int n
  | v => v

/-- `acc + a * b`. -/
def multiplyAdd (p : Typed.Program) (acc a b : Value) : Op Value := do
  let product ← arithmeticOn p .mul a b false
  arithmeticOn p .add acc product false

/-- The sum of the products of corresponding elements. -/
def sumOfProducts (p : Typed.Program) (float : Bool) (pairs : List (Value × Value)) : Op Value := do
  let acc ← pairs.foldlM (fun acc (a, b) => multiplyAdd p acc a b) (zeroOf float)
  pure (acc.toFloatIf float)

/-- The rows of a matrix, which must all have the same length. -/
def matrixRows (m : Value) : Op (Array (Array Value)) := do
  let rows ← arrayItems m "matrix product of a null matrix"
  let rows ← rows.mapM fun row => arrayItems row "matrix product with a null row"
  match rows[0]? with
  | some first =>
    if rows.any (·.size ≠ first.size) then
      throw (.shapeMismatch "matrix rows have different lengths")
    pure rows
  | none => pure rows

/-- `@` on two vectors, a vector and a one-column matrix, or two matrices. `float` says whether
the result's numbers are floats, so that empty products have the right zero. -/
def dotProduct (p : Typed.Program) (l r : Value) (shape : Typed.DotShape) (float : Bool) :
    Op Value := do
  match shape with
  | .vectors =>
    let ls ← arrayItems l "dot product of a null vector"
    let rs ← arrayItems r "dot product of a null vector"
    if ls.size ≠ rs.size then
      throw (.shapeMismatch ("dot product of vectors of length " ++ toString ls.size ++ " and " ++
        toString rs.size))
    sumOfProducts p float (ls.toList.zip rs.toList)
  | .vectorByColumn =>
    let ls ← arrayItems l "dot product of a null vector"
    let rows ← matrixRows r
    let width := (rows[0]?.map (·.size)).getD 1
    if ls.size ≠ rows.size || width ≠ 1 then
      throw (.shapeMismatch ("dot product of a vector of length " ++ toString ls.size ++
        " and a " ++ toString rows.size ++ "x" ++ toString width ++ " matrix"))
    sumOfProducts p float (ls.toList.zip (rows.toList.map fun row => row.getD 0 .null))
  | .matrices =>
    let ls ← matrixRows l
    let rs ← matrixRows r
    let inner := (ls[0]?.map (·.size)).getD 0
    let columns := (rs[0]?.map (·.size)).getD 0
    if inner ≠ rs.size then
      throw (.shapeMismatch ("matrix product of " ++ toString ls.size ++ "x" ++ toString inner ++
        " and " ++ toString rs.size ++ "x" ++ toString columns ++ " matrices"))
    let rows ← ls.mapM fun row => do
      let out ← (List.range columns).mapM fun column =>
        sumOfProducts p float (row.toList.zip (rs.toList.map fun rrow => rrow.getD column .null))
      newArray out.toArray
    newArray rows

/-- The number of leaves under an array of depth `depth`; a `null` where a row is expected is a
fault, elsewhere it counts as a leaf. -/
def countLeaves : Nat → Nat → Array Value → Op Nat
  | 0, _, _ => throw (.internal "nesting too deep")
  | fuel + 1, depth, items =>
    items.foldlM (fun total item => do
      match item with
      | .array _ =>
        let inner ← arrayItems item ""
        pure (total + (← countLeaves fuel (depth - 1) inner))
      | .null =>
        if depth > 1 then throw (.nullPointer "counting the leaves of a null row")
        else pure (total + 1)
      | _ => pure (total + 1)) 0

/-- One more than the number of arrays met by following first elements; `fuel` bounds the
nesting. -/
def nestingDepth : Nat → Array Value → Op Nat
  | 0, _ => throw (.internal "nesting too deep")
  | fuel + 1, items =>
    match (items[0]? : Option Value) with
    | some (.array addr) => do
      let inner := ((← get).items? addr).getD #[]
      pure (1 + (← nestingDepth fuel inner))
    | _ => pure 1

/-- The sum of the leaves, starting from zero of the leaf kind. -/
def sumLeaves (p : Typed.Program) (float : Bool) : Nat → Array Value → Op Value
  | 0, _ => throw (.internal "nesting too deep")
  | fuel + 1, items =>
    items.foldlM (fun acc item => do
      let v ← match item with
        | .array _ => do sumLeaves p float fuel (← arrayItems item "")
        | .null => throw (.nullPointer "summing a null element")
        | other => pure other
      arithmeticOn p .add acc v false) (zeroOf float)

/-- The value of `array.property`, where `ty` is the static type of the array. -/
def property (p : Typed.Program) (array : Value) (prop : Typed.Property) (ty : Ty) : Op Value := do
  let items ← arrayItems array "accessing a property of a null array"
  let float := ty.leaf == .float
  let fuel := (← get).objects.size + 1
  match prop with
  | .length => pure (.int items.size.toInt64)
  | .count => pure (.int (← countLeaves fuel ty.depth items).toInt64)
  | .nDim => pure (.int (← nestingDepth fuel items).toInt64)
  | .sum => sumLeaves p float fuel items
  | .avg =>
    let total ← sumLeaves p float fuel items
    let count := (← countLeaves fuel ty.depth items).toInt64
    if count = 0 then pure (zeroOf float)
    else arithmeticOn p .div total (.int count) false

/-- Nested arrays of the given lengths, outermost first, filled with the default of `element`;
every inner array is a separate object. -/
def allocate (element : Ty) : List Nat → Op Value
  | [] => pure (Value.default element)
  | n :: rest => do
    let items ← (List.range n).mapM fun _ => allocate element rest
    newArray items.toArray

end Sigh
