import Sigh.Value.Ops
import Sigh.Typed

namespace Sigh

/-- Why a run stopped early: a fault at a span of the program, or exhausted fuel. -/
inductive Halt where
  | fault (f : Fault) (span : Span)
  | outOfFuel
  deriving Repr

/-- Running on the machine, which may halt. -/
abbrev Exec := ExceptT Halt (StateM Machine)

/-- How a statement hands control back: on to the next statement, or out of the function with
the value of a `return`, if it had one. -/
inductive Flow where
  | normal
  | ret (value : Option Value)
  deriving Inhabited

/-- A machine computation whose fault is charged to `span`. -/
def chargeOp {α : Type} (x : Op α) (span : Span) : Exec α :=
  ExceptT.mk do
    match ← x.run with
    | .ok a => pure (.ok a)
    | .error f => pure (.error (.fault f span))

/-- A result whose fault is charged to `span`. -/
def charge {α : Type} (r : Except Fault α) (span : Span) : Exec α :=
  match r with
  | .ok a => pure a
  | .error f => throw (.fault f span)

/-- Reads the machine; a fault is charged to `span`. -/
def inspect {α : Type} (f : Machine → Except Fault α) (span : Span) : Exec α := do
  charge (f (← get)) span

/-- Stops with a fault at `span`. -/
def faultAt {α : Type} (f : Fault) (span : Span) : Exec α := throw (.fault f span)

/-- A new frame under `parent` holding `slots`. -/
def newFrame (parent : Option Nat) (receiver : Option Nat) (slots : Array Value) : Exec Nat :=
  modifyGet fun m => m.pushFrame ⟨slots, parent, receiver⟩

/-- The position of `index` in an array of `length` elements. -/
def checkedIndex (index : Int64) (length : Nat) : Except Fault Nat :=
  if 0 ≤ index.toInt ∧ index.toInt < length then .ok index.toInt.toNat
  else .error (.indexOutOfBounds index.toInt length)

/-- A binary operation that needs no program: arithmetic, ordering and equality. -/
def binaryValue (text : Value → String) (op : BinOp) (l r : Value) : Except Fault Value :=
  if op.isArithmetic then arithmetic text op l r false
  else if op.isOrdering then (compare op l r).map .bool
  else if op == .eq then .ok (.bool (l.equals r))
  else if op == .ne then .ok (.bool !(l.equals r))
  else .error (unsupportedFault op l r)

namespace Run

variable (p : Typed.Program)

/-- The function with number `fn`. -/
def function (fn : Nat) (span : Span) : Exec Typed.Function :=
  match p.functions[fn]? with
  | some f => pure f
  | none => faultAt (.internal "unknown function") span

/-- The receiver instance seen `hops` frames up. -/
def receiverAt (env hops : Nat) (span : Span) : Exec Nat :=
  inspect (fun m => m.ancestor env hops >>= m.receiverOf) span

/-- Writes a line of output. -/
def writeLine (text : String) : Exec Unit :=
  modify fun m => { m with output := m.output ++ text ++ "\n" }

mutual

/-- The value of an expression in frame `env`. -/
def eval : Nat → Typed.Expr → Nat → Exec Value
  | 0, _, _ => throw .outOfFuel
  | fuel + 1, e, env =>
    let span := e.span
    match e.kind with
    | .int v => pure (.int v)
    | .float v => pure (.float v)
    | .str v => pure (.str v)
    | .bool v => pure (.bool v)
    | .null => pure .null
    | .local hops slot => inspect (fun m => m.ancestor env hops >>= fun f => m.slot f slot) span
    | .receiverField hops field => do
      let r ← receiverAt env hops span
      match ((← get).fields r)[field]? with
      | some v => pure v
      | none => faultAt (.internal "unknown field") span
    | .receiverMethod hops fn => do
      let r ← receiverAt env hops span
      let _ ← function p fn span
      pure (.method r fn)
    | .function hops fn => do
      let _ ← function p fn span
      let frame ← inspect (·.ancestor env hops) span
      pure (.closure fn frame)
    | .ctor hops decl => do
      if p.structs[decl]?.isNone then faultAt (.internal "unknown struct") span
      let frame ← inspect (·.ancestor env hops) span
      pure (.ctor decl frame)
    | .typeValue t => pure (.type t)
    | .print => pure .print
    | .array items => do
      let vs ← evalList fuel items env
      chargeOp (newArray vs.toArray) span
    | .field stem field => do
      let inst ← evalStruct fuel stem env
      match ((← get).fields inst)[field]? with
      | some v => pure v
      | none => faultAt (.internal "unknown field") span
    | .method stem fn => do
      let inst ← evalStruct fuel stem env
      let _ ← function p fn span
      pure (.method inst fn)
    | .property stem prop => do
      let a ← eval fuel stem env
      chargeOp (property p a prop stem.ty) span
    | .index array index => do
      let a ← eval fuel array env
      let i ← evalIndex fuel index env
      match a with
      | .array addr =>
        let items := ((← get).items? addr).getD #[]
        let k ← charge (checkedIndex i items.size) span
        pure (items.getD k .null)
      | _ => faultAt (.nullPointer "indexing a null array") span
    | .call callee args => do
      let c ← eval fuel callee env
      let vs ← evalList fuel args env
      call fuel c vs span
    | .not operand => do
      pure (.bool !(← evalBool fuel operand env))
    | .binary op l r => do
      let lv ← eval fuel l env
      let rv ← eval fuel r env
      charge (binaryValue (render p (← get)) op lv rv) span
    | .logic op l r => do
      let lb ← evalBool fuel l env
      if op == .and then
        if lb then pure (.bool (← evalBool fuel r env)) else pure (.bool false)
      else
        if lb then pure (.bool true) else pure (.bool (← evalBool fuel r env))
    | .concat l r => do
      let lv ← eval fuel l env
      let rv ← eval fuel r env
      let m ← get
      pure (.str (render p m lv ++ render p m rv))
    | .elementWise op l r => do
      let lv ← eval fuel l env
      let rv ← eval fuel r env
      chargeOp (elementWise p op lv rv) span
    | .elementWiseMethod fn l r => do
      let f ← function p fn span
      let lv ← eval fuel l env
      let rv ← eval fuel r env
      elementWiseMethod fuel f lv rv span
    | .dotProduct l r => do
      let some shape := Typed.DotShape.ofDepths? l.ty.depth r.ty.depth
        | faultAt (.internal "unchecked dot product shape") span
      let float := e.ty.leaf == .float
      let lv ← eval fuel l env
      let rv ← eval fuel r env
      chargeOp (dotProduct p lv rv shape float) span
    | .assign target value => assign fuel target value env span
    | .intToFloat inner => do
      match ← eval fuel inner env with
      | .int n => pure (.float n.toFloat)
      | other => pure other

/-- The values of expressions, left to right. -/
def evalList : Nat → List Typed.Expr → Nat → Exec (List Value)
  | 0, _, _ => throw .outOfFuel
  | _ + 1, [], _ => pure []
  | fuel + 1, e :: es, env => do
    let v ← eval fuel e env
    let vs ← evalList fuel es env
    pure (v :: vs)

/-- A condition, which must be a `Bool`. -/
def evalBool : Nat → Typed.Expr → Nat → Exec Bool
  | 0, _, _ => throw .outOfFuel
  | fuel + 1, e, env => do
    match ← eval fuel e env with
    | .bool b => pure b
    | .null => faultAt (.nullPointer "null used as a condition") e.span
    | other => faultAt (.unsupportedOperands ("expected a Bool, found " ++ other.kindName)) e.span

/-- An index, which must be an `Int`. -/
def evalIndex : Nat → Typed.Expr → Nat → Exec Int64
  | 0, _, _ => throw .outOfFuel
  | fuel + 1, e, env => do
    match ← eval fuel e env with
    | .int i => pure i
    | .null => faultAt (.nullPointer "null used as an index") e.span
    | other => faultAt (.unsupportedOperands ("expected an Int index, found " ++ other.kindName)) e.span

/-- A struct instance, by address. -/
def evalStruct : Nat → Typed.Expr → Nat → Exec Nat
  | 0, _, _ => throw .outOfFuel
  | fuel + 1, e, env => do
    match ← eval fuel e env with
    | .struct addr => pure addr
    | .null => faultAt (.nullPointer "accessing a field or method of null") e.span
    | other => faultAt (.unsupportedOperands ("expected a struct, found " ++ other.kindName)) e.span

/-- Stores a value in a place, giving the value. -/
def assign : Nat → Typed.Place → Typed.Expr → Nat → Span → Exec Value
  | 0, _, _, _, _ => throw .outOfFuel
  | fuel + 1, target, value, env, span =>
    match target with
    | .local hops slot => do
      let v ← eval fuel value env
      let frame ← inspect (·.ancestor env hops) span
      inspect (·.slotExists frame slot) span
      modify (·.writeSlot frame slot v)
      pure v
    | .receiverField hops field => do
      let r ← receiverAt env hops span
      let v ← eval fuel value env
      inspect (·.fieldExists r field) span
      modify (·.writeField r field v)
      pure v
    | .field stem field => do
      let inst ← evalStruct fuel stem env
      let v ← eval fuel value env
      inspect (·.fieldExists inst field) span
      modify (·.writeField inst field v)
      pure v
    | .index array index => do
      let a ← eval fuel array env
      let i ← evalIndex fuel index env
      let v ← eval fuel value env
      match a with
      | .array addr =>
        let k ← inspect (fun m => checkedIndex i (((m.items? addr).map (·.size)).getD 0)) span
        modify (·.writeItem addr k v)
        pure v
      | _ => faultAt (.nullPointer "indexing a null array") array.span

/-- Calls a value with arguments. -/
def call : Nat → Value → List Value → Span → Exec Value
  | 0, _, _, _ => throw .outOfFuel
  | fuel + 1, callee, args, span =>
    match callee with
    | .closure fn frame => do
      let f ← function p fn span
      invoke fuel f frame args
    | .method receiver fn => do
      let f ← function p fn span
      let env := match (← get).inst? receiver with
        | some (_, frame, _) => frame
        | none => 0
      let frame ← newFrame (some env) (some receiver) #[]
      invoke fuel f frame args
    | .ctor decl frame => do
      modifyGet fun m => let (addr, m) := m.alloc (.inst decl frame args.toArray); (.struct addr, m)
    | .print => do
      let text := args.headD .null
      writeLine (render p (← get) text)
      pure text
    | .null => faultAt (.nullPointer "calling a null function") span
    | other => faultAt (.unsupportedOperands ("cannot call a value of type " ++ other.kindName)) span

/-- A struct's operator method applied to each pair of elements, through nested arrays. -/
def elementWiseMethod : Nat → Typed.Function → Value → Value → Span → Exec Value
  | 0, _, _, _, _ => throw .outOfFuel
  | fuel + 1, f, l, r, span =>
    match l, r with
    | .array a, .array b => do
      let m ← get
      let ls := (m.items? a).getD #[]
      let rs := (m.items? b).getD #[]
      if ls.size ≠ rs.size then
        faultAt (.shapeMismatch ("element-wise " ++ f.name ++ " on arrays of length " ++
          toString ls.size ++ " and " ++ toString rs.size)) span
      let items ← elementWiseMethodList fuel f (ls.toList.zip rs.toList) span
      chargeOp (newArray items.toArray) span
    | .struct receiver, argument => do
      let argument := match argument, f.params.head? with
        | .int n, some (_, .float) => .float n.toFloat
        | a, _ => a
      call fuel (.method receiver f.id) [argument] span
    | .null, _ | _, .null => faultAt (.nullPointer "element-wise operation on null") span
    | _, _ => faultAt (.shapeMismatch "element-wise operation on arrays of different depths") span

/-- `elementWiseMethod` on each pair, left to right. -/
def elementWiseMethodList : Nat → Typed.Function → List (Value × Value) → Span → Exec (List Value)
  | 0, _, _, _ => throw .outOfFuel
  | _ + 1, _, [], _ => pure []
  | fuel + 1, f, (a, b) :: rest, span => do
    let v ← elementWiseMethod fuel f a b span
    let vs ← elementWiseMethodList fuel f rest span
    pure (v :: vs)

/-- Runs a function body with a frame of the arguments under `parent`; a function that ends
without a value gives `null`. -/
def invoke : Nat → Typed.Function → Nat → List Value → Exec Value
  | 0, _, _, _ => throw .outOfFuel
  | fuel + 1, f, parent, args => do
    let frame ← newFrame (some parent) none args.toArray
    match ← execBlock fuel f.body frame with
    | .ret (some v) => pure v
    | _ => pure .null

/-- Runs a block in a new frame under `env`. -/
def execBlock : Nat → Typed.Block → Nat → Exec Flow
  | 0, _, _ => throw .outOfFuel
  | fuel + 1, b, env => do
    let frame ← newFrame (some env) none (Array.replicate b.slots .null)
    execStmts fuel b.statements frame

/-- Runs statements in order until one returns. -/
def execStmts : Nat → List Typed.Stmt → Nat → Exec Flow
  | 0, _, _ => throw .outOfFuel
  | _ + 1, [], _ => pure .normal
  | fuel + 1, s :: rest, env => do
    match ← exec fuel s env with
    | .ret v => pure (.ret v)
    | .normal => execStmts fuel rest env

/-- Runs one statement. -/
def exec : Nat → Typed.Stmt → Nat → Exec Flow
  | 0, _, _ => throw .outOfFuel
  | fuel + 1, s, env =>
    match s with
    | .block b _ => execBlock fuel b env
    | .declare slot value span => do
      let v ← eval fuel value env
      inspect (·.slotExists env slot) span
      modify (·.writeSlot env slot v)
      pure .normal
    | .sizedArray slot element dims span => do
      let v ← chargeOp (allocate element dims) span
      inspect (·.slotExists env slot) span
      modify (·.writeSlot env slot v)
      pure .normal
    | .ifElse cond thenBranch elseBranch _ => do
      if ← evalBool fuel cond env then exec fuel thenBranch env
      else
        match elseBranch with
        | some e => exec fuel e env
        | none => pure .normal
    | .whileLoop cond body _ => loop fuel cond body env
    | .ret value _ => do
      match value with
      | some e => pure (.ret (some (← eval fuel e env)))
      | none => pure (.ret none)
    | .expr e _ => do
      let _ ← eval fuel e env
      pure .normal

/-- Runs a loop while its condition holds. -/
def loop : Nat → Typed.Expr → Typed.Stmt → Nat → Exec Flow
  | 0, _, _, _ => throw .outOfFuel
  | fuel + 1, cond, body, env => do
    if ← evalBool fuel cond env then
      match ← exec fuel body env with
      | .ret v => pure (.ret v)
      | .normal => loop fuel cond body env
    else pure .normal

end

end Run

/-- What a finished run gives: the value of a top-level `return`, if one ran with a value. -/
def Typed.Program.execute (p : Typed.Program) (fuel : Nat) : Exec (Option Value) := do
  let root ← newFrame none none (Array.replicate p.body.slots .null)
  match ← Run.execStmts p fuel p.body.statements root with
  | .ret v => pure v
  | .normal => pure none

end Sigh
