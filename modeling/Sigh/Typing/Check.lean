import Sigh.Typing.Expr
import Sigh.Typing.Returns
import Sigh.Failure
import Sigh.Syntax.Read

namespace Sigh.Typing

/-- A condition of an `if` or `while`, which must be a `Bool`. -/
def checkCondition (cond : Expr) (statement : String) : CheckM (Option Typed.Expr) := do
  let some c ← checkExpr cond | return none
  if !(c.ty == .bool) then
    report c.span (statement ++ " statement with a non-boolean condition of type: " ++ c.ty.text)
    return none
  pure (some c)

/-- A `return` at the top level or in the innermost function; `none` when it fails. -/
def checkReturn (span : Span) (value : Option Expr) : CheckM (Option (Option Typed.Expr)) := do
  let checked : Option (Option Typed.Expr) ← match value with
    | some e => do pure ((← checkExpr e).map some)
    | none => pure (some none)
  let some v := checked | return none
  match (← get).scopes.currentFunction? with
  | none =>
    match v with
    | some e =>
      if e.ty.isVoid then
        report e.span "Returning a Void value from the top level"
        return none
      pure (some (some e))
    | none => pure (some none)
  | some fn =>
    let expected := (← functionInfo fn).result
    match v with
    | none =>
      if !expected.isVoid then
        report span "Return without value in a function with a return type"
        return none
      pure (some none)
    | some e =>
      if expected.isVoid then
        report e.span "Return with a value in a Void function"
        return none
      if !Ty.assignable e.ty expected then
        report e.span ("Incompatible return type, expected " ++ expected.text ++ " but got " ++
          e.ty.text)
        return none
      pure (some (some (e.coerceTo expected)))

/-- A variable declaration with a value. -/
def checkVar (name : Ident) (type : TypeExpr) (init : Expr) (span : Span) :
    CheckM (Option Typed.Stmt) := do
  let value ← checkExpr init
  let ty ← resolveType type
  let slot ← declareVariable name (ty.getD .null)
  match value, ty with
  | some value, some ty =>
    if !Ty.assignable value.ty ty then
      report init.span ("incompatible initializer type provided for variable " ++ name.name ++
        ": expected " ++ ty.text ++ " but got " ++ value.ty.text)
      return none
    pure (some (.declare slot (value.coerceTo ty) span))
  | _, _ => pure none

/-- Records the checked body of a function. -/
def setBody (fn : Nat) (body : Typed.Block) : CheckM Unit :=
  modify fun c => { c with functions := c.functions.modify fn fun f => { f with body := some body } }

mutual
/-- Checks a statement; declarations of functions and structs leave no statement. -/
def checkStmt : Stmt → CheckM (Option Typed.Stmt)
  | .block body span => do
    enterScope .block body
    let ss ← checkStmts body
    let slots ← popScope
    pure (some (.block ⟨ss, slots, span⟩ span))
  | .var name type init span => checkVar name type init span
  | .sizedArray name element dims span => do
    let some el ← resolveType element | return none
    let slot ← declareVariable name (el.arrayOf dims.length)
    pure (some (.sizedArray slot el dims span))
  | .fnDecl d _ => do
    match (← get).hoistedFunctions.lookup d.name.span.start with
    | some fn => checkFunction d fn
    | none => pure ()
    pure none
  | .structDecl d _ => do
    checkStruct d
    pure none
  | .ifElse cond thenBranch elseBranch span => do
    let c ← checkCondition cond "If"
    let t ← checkBody thenBranch
    let e ← match elseBranch with
      | some e => do pure (some (← checkBody e))
      | none => pure none
    pure (c.map fun c => .ifElse c t e span)
  | .whileLoop cond body span => do
    let c ← checkCondition cond "While"
    let b ← checkBody body
    pure (c.map fun c => .whileLoop c b span)
  | .ret value span => do
    pure ((← checkReturn span value).map fun v => .ret v span)
  | .expr e span => do
    if !e.isStatement then
      report e.span
        "Expression used as statement. Only function calls and assignment expressions are allowed."
    pure ((← checkExpr e).map fun e => .expr e span)
termination_by s => 2 * sizeOf s
/-- Checks statements in order. -/
def checkStmts : List Stmt → CheckM (List Typed.Stmt)
  | [] => pure []
  | s :: rest => do
    let r ← checkStmt s
    let rs ← checkStmts rest
    pure (r.toList ++ rs)
termination_by l => 2 * sizeOf l
/-- The body of an `if` or `while`, in a scope of its own. -/
def checkBody : Stmt → CheckM Typed.Stmt
  | .block body span => do
    enterScope .block body
    let ss ← checkStmts body
    let slots ← popScope
    pure (.block ⟨ss, slots, span⟩ span)
  | other => do
    enterScope .block [other]
    let r ← checkStmt other
    let slots ← popScope
    pure (.block ⟨r.toList, slots, other.span⟩ other.span)
termination_by s => 2 * sizeOf s + 1
/-- Checks the body of function `fn`, with its parameters in a scope of their own. -/
def checkFunction : FunDecl → Nat → CheckM Unit
  | ⟨name, params, _, body, bodySpan⟩, fn => do
    pushScope (.function fn)
    let info ← functionInfo fn
    for (b, (_, ty)) in params.zip info.params do
      let _ ← declareVariable b.name ty
    enterScope .block body
    let ss ← checkStmts body
    let slots ← popScope
    let _ ← popScope
    if !(← functionInfo fn).result.isVoid && !Stmt.anyAlwaysReturns body then
      report name.span ("Missing return in function " ++ name.name)
    setBody fn ⟨ss, slots, bodySpan⟩
termination_by d _ => 2 * sizeOf d
/-- Checks methods with their function numbers. -/
def checkMethods : List FunDecl → List Nat → CheckM Unit
  | m :: ms, fn :: fns => do
    checkFunction m fn
    checkMethods ms fns
  | _, _ => pure ()
termination_by ms _ => 2 * sizeOf ms
/-- Checks the methods of a struct, in a scope that holds its fields and methods. -/
def checkStruct : StructDecl → CheckM Unit
  | ⟨name, fields, methods⟩ => do
    match (← get).hoistedStructs.lookup name.span.start with
    | none => pure ()
    | some id =>
      pushScope (.struct id)
      let info ← structInfo id
      for (index, f, (_, ty)) in (List.range fields.length).zip (fields.zip info.fields) do
        declare f.name (.field index ty)
      for (m, (_, fn)) in methods.zip info.methods do
        declare m.name (.method fn)
      checkMethods methods (info.methods.map (·.2))
      let _ ← popScope
termination_by d => 2 * sizeOf d
end

/-- The state before checking. -/
def Checker.initial : Checker := ⟨[], #[], #[], [], [], #[]⟩

/-- The typed program from the final state and the checked root block. -/
def Checker.finish (c : Checker) (body : Typed.Block) : Typed.Program :=
  { body
    functions := (c.functions.zipIdx).map fun (f, id) =>
      ⟨id, f.name, f.params, f.result, f.body.getD ⟨[], 0, f.span⟩, f.owner, f.span⟩
    structs := (c.structs.zipIdx).map fun (s, id) => ⟨id, s.name, s.fields, s.methods⟩ }

end Sigh.Typing

namespace Sigh

open Typing in
/-- Resolves names and checks types: the typed program, or every diagnostic in order. -/
def Program.check (p : Program) : Except (List Diagnostic) Typed.Program :=
  let run : CheckM Typed.Block := do
    enterScope .root p.statements
    let ss ← checkStmts p.statements
    let slots ← popScope
    pure ⟨ss, slots, p.span⟩
  let (body, c) := run.run Checker.initial
  if c.diagnostics.isEmpty then .ok (c.finish body) else .error c.diagnostics.toList

/-- Reads and checks a source text. -/
def Program.readChecked (source : String) : Except Failure Typed.Program := do
  let p ← Program.read source
  p.check.mapError .semantic

end Sigh
