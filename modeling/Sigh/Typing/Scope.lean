import Sigh.Ty

namespace Sigh.Typing

/-- What a scope belongs to. -/
inductive ScopeKind where
  | root
  | block
  | function (fn : Nat)
  | struct (decl : Nat)
  deriving DecidableEq, Repr

/-- What a name is declared as. -/
inductive Declaration where
  | variable (slot : Nat) (ty : Ty)
  | function (fn : Nat)
  | struct (decl : Nat)
  | field (index : Nat) (ty : Ty)
  | method (fn : Nat)
  deriving Repr

/-- The names predefined in the root scope; user declarations may shadow them. -/
inductive Builtin where
  | type (t : Ty)
  | true
  | false
  | null
  | print
  deriving Repr

/-- The builtin with a given name. -/
def Builtin.find? : String → Option Builtin
  | "Bool" => some (.type .bool)
  | "Int" => some (.type .int)
  | "Float" => some (.type .float)
  | "String" => some (.type .string)
  | "Void" => some (.type .void)
  | "Type" => some (.type .type)
  | "true" => some .true
  | "false" => some .false
  | "null" => some .null
  | "print" => some .print
  | _ => none

/-- The type of a builtin used as a value: `print` takes and returns a string. -/
def Builtin.valueType : Builtin → Ty
  | .type _ => .type
  | .true | .false => .bool
  | .null => .null
  | .print => .fn [.string] .string

/-- What a name refers to from the current scope. -/
inductive Resolution where
  | local (hops slot : Nat) (ty : Ty)
  | function (hops fn : Nat)
  | struct (hops decl : Nat)
  | receiverField (hops index : Nat) (ty : Ty)
  | receiverMethod (hops fn : Nat)
  | builtin (b : Builtin)
  | usedBeforeDeclaration
  | unresolved
  deriving Repr

/-- One scope: its declarations, the variables it declares further down, and its slot count. -/
structure Scope where
  kind : ScopeKind
  names : List (String × Declaration)
  pending : List String
  slots : Nat
  deriving Repr

/-- Adds a declaration to a scope, unless the scope already declares the name. -/
def Scope.insert (s : Scope) (name : String) (d : Declaration) : Option Scope :=
  if (s.names.lookup name).isSome then none
  else some { s with names := (name, d) :: s.names, pending := s.pending.filter (· ≠ name) }

/-- Resolves a declaration found `hops` scopes up. -/
def Declaration.resolve (hops : Nat) : Declaration → Resolution
  | .variable slot ty => .local hops slot ty
  | .function fn => .function hops fn
  | .struct decl => .struct hops decl
  | .field index ty => .receiverField hops index ty
  | .method fn => .receiverMethod hops fn

/-- The scopes in force, innermost first. -/
abbrev Scopes := List Scope

namespace Scopes

def push (ss : Scopes) (kind : ScopeKind) : Scopes := ⟨kind, [], [], 0⟩ :: ss

/-- Leaves the innermost scope, with the number of slots it used. -/
def pop : Scopes → Nat × Scopes
  | s :: rest => (s.slots, rest)
  | [] => (0, [])

/-- Records variables that the innermost scope declares further down. -/
def reserve (ss : Scopes) (names : List String) : Scopes :=
  match ss with
  | s :: rest => { s with pending := s.pending ++ names } :: rest
  | [] => []

/-- Declares a function, struct, field or method in the innermost scope. -/
def declare (ss : Scopes) (name : String) (d : Declaration) : Option Scopes :=
  match ss with
  | s :: rest => (s.insert name d).map (· :: rest)
  | [] => none

/-- Declares a variable in the innermost scope, in its next slot. -/
def declareVariable (ss : Scopes) (name : String) (ty : Ty) : Option (Nat × Scopes) :=
  match ss with
  | s :: rest =>
    (s.insert name (.variable s.slots ty)).map fun s' => (s.slots, { s' with slots := s.slots + 1 } :: rest)
  | [] => none

/-- The first declaration of `name` from the scope `hops` scopes up outwards. -/
def find? (name : String) : Nat → Scopes → Option Resolution
  | _, [] => none
  | hops, s :: rest =>
    match s.names.lookup name with
    | some d => some (Declaration.resolve hops d)
    | none => find? name (hops + 1) rest

/-- What `name` refers to. -/
def lookup (ss : Scopes) (name : String) : Resolution :=
  match find? name 0 ss with
  | some r => r
  | none =>
    match Builtin.find? name with
    | some b => .builtin b
    | none => if ss.any (·.pending.contains name) then .usedBeforeDeclaration else .unresolved

/-- The innermost function whose scope is in force. -/
def currentFunction? : Scopes → Option Nat
  | [] => none
  | s :: rest =>
    match s.kind with
    | .function fn => some fn
    | _ => currentFunction? rest

end Scopes

end Sigh.Typing
