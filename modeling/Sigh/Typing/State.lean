import Sigh.Typing.Scope
import Sigh.Typed
import Sigh.Diagnostic

namespace Sigh.Typing

/-- What is known of a function: its signature, and its body once checked. -/
structure FunctionInfo where
  name : String
  params : List (String × Ty)
  result : Ty
  owner : Option Nat
  span : Span
  body : Option Typed.Block
  deriving Inhabited

/-- The type of a function's value. -/
def FunctionInfo.ty (f : FunctionInfo) : Ty := .fn (f.params.map (·.2)) f.result

/-- What is known of a struct: its fields in order and its methods by name. -/
structure StructInfo where
  name : String
  fields : List (String × Ty)
  methods : List (String × Nat)
  deriving Inhabited

/-- The state of checking. -/
structure Checker where
  scopes : Scopes
  functions : Array FunctionInfo
  structs : Array StructInfo
  hoistedFunctions : List (Nat × Nat)
  hoistedStructs : List (Nat × Nat)
  diagnostics : Array Diagnostic

/-- Checking, which records diagnostics and goes on. -/
abbrev CheckM := StateM Checker

/-- Records a semantic error. -/
def report (span : Span) (message : String) : CheckM Unit :=
  modify fun c => { c with diagnostics := c.diagnostics.push ⟨.semantic, message, span⟩ }

def pushScope (kind : ScopeKind) : CheckM Unit :=
  modify fun c => { c with scopes := c.scopes.push kind }

/-- Leaves the innermost scope, with its slot count. -/
def popScope : CheckM Nat :=
  modifyGet fun c => let (n, ss) := c.scopes.pop; (n, { c with scopes := ss })

def lookup (name : String) : CheckM Resolution := do
  pure ((← get).scopes.lookup name)

def functionInfo (fn : Nat) : CheckM FunctionInfo := do
  pure ((← get).functions[fn]?.getD default)

def structInfo (decl : Nat) : CheckM StructInfo := do
  pure ((← get).structs[decl]?.getD default)

/-- The type of instances of struct `decl`. -/
def structType (decl : Nat) : CheckM Ty := do
  pure (.struct decl (← structInfo decl).name)

/-- Declares a function, struct, field or method; a second declaration of a name in one scope is
an error. -/
def declare (name : Ident) (d : Declaration) : CheckM Unit := do
  match (← get).scopes.declare name.name d with
  | some ss => modify fun c => { c with scopes := ss }
  | none => report name.span ("redeclaration of " ++ name.name ++ " in the same scope")

/-- Declares a variable and gives its slot. A second declaration of a name in one scope is an
error; checking goes on with a fresh slot under a name that no program can write. -/
def declareVariable (name : Ident) (ty : Ty) : CheckM Nat := do
  match (← get).scopes.declareVariable name.name ty with
  | some (slot, ss) =>
    modify fun c => { c with scopes := ss }
    pure slot
  | none =>
    report name.span ("redeclaration of " ++ name.name ++ " in the same scope")
    let hidden := name.name ++ "#" ++ toString name.span.start
    match (← get).scopes.declareVariable hidden ty with
    | some (slot, ss) =>
      modify fun c => { c with scopes := ss }
      pure slot
    | none => pure 0

/-- The type a written type names. -/
def resolveType : TypeExpr → CheckM (Option Ty)
  | .array component _ => do pure ((← resolveType component).map .array)
  | .named name span => do
    match ← lookup name with
    | .struct _ decl => pure (some (← structType decl))
    | .builtin (.type t) => pure (some t)
    | .usedBeforeDeclaration | .unresolved =>
      report span ("could not resolve: " ++ name)
      pure none
    | _ =>
      report span (name ++ " does not name a type")
      pure none

/-- Numbers a new function with an empty signature. -/
def allocateFunction (decl : FunDecl) (owner : Option Nat) : CheckM Nat :=
  modifyGet fun c =>
    (c.functions.size,
      { c with functions := c.functions.push ⟨decl.name.name, [], .void, owner, decl.name.span, none⟩ })

/-- Resolves the parameter types and result type of a function. -/
def resolveSignature (decl : FunDecl) (fn : Nat) : CheckM Unit := do
  let params ← decl.params.mapM fun b => do
    pure (b.name.name, (← resolveType b.type).getD .null)
  let result ← match decl.result with
    | some t => do pure ((← resolveType t).getD .void)
    | none => pure .void
  modify fun c => { c with functions := c.functions.modify fn fun f => { f with params := params, result := result } }

/-- Declares the structs and functions of the statements of a scope, then resolves their
fields and signatures, which may name any struct of the scope. Methods are numbered after the
functions of the scope. -/
def hoist (stmts : List Stmt) : CheckM Unit := do
  let mut structs : Array (StructDecl × Nat) := #[]
  let mut functions : Array (FunDecl × Nat) := #[]
  for s in stmts do
    match s with
    | .structDecl d _ =>
      let id := (← get).structs.size
      let info : StructInfo := ⟨d.name.name, [], []⟩
      modify fun c => { c with structs := c.structs.push info }
      modify fun c => { c with hoistedStructs := (d.name.span.start, id) :: c.hoistedStructs }
      declare d.name (.struct id)
      structs := structs.push (d, id)
    | .fnDecl d _ =>
      let id ← allocateFunction d none
      modify fun c => { c with hoistedFunctions := (d.name.span.start, id) :: c.hoistedFunctions }
      declare d.name (.function id)
      functions := functions.push (d, id)
    | _ => pure ()
  for (d, id) in structs do
    let fields ← d.fields.mapM fun b => do
      pure (b.name.name, (← resolveType b.type).getD .null)
    modify fun c => { c with structs := c.structs.modify id fun s => { s with fields := fields } }
    for m in d.methods do
      let fn ← allocateFunction m (some id)
      modify fun c => { c with hoistedFunctions := (m.name.span.start, fn) :: c.hoistedFunctions }
      resolveSignature m fn
      modify fun c => { c with structs := c.structs.modify id fun s =>
        { s with methods := s.methods ++ [(m.name.name, fn)] } }
  for (d, id) in functions do
    resolveSignature d id

/-- The names of the variables that statements declare. -/
def declaredVariables (stmts : List Stmt) : List String :=
  stmts.filterMap fun s =>
    match s with
    | .var name .. | .sizedArray name .. => some name.name
    | _ => none

/-- Enters a scope for statements: hoists their declarations and reserves their variables. -/
def enterScope (kind : ScopeKind) (stmts : List Stmt) : CheckM Unit := do
  pushScope kind
  hoist stmts
  modify fun c => { c with scopes := c.scopes.reserve (declaredVariables stmts) }

end Sigh.Typing
