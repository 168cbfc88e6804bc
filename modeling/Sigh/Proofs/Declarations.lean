import Sigh.Proofs.Frames

namespace Sigh

namespace Typed

mutual
/-- The variables that an expression reads or assigns, by hops and slot. -/
def Expr.locals : Expr → List (Nat × Nat)
  | ⟨kind, _, _⟩ => kind.locals
/-- The variables that an expression of this form reads or assigns. -/
def ExprKind.locals : ExprKind → List (Nat × Nat)
  | .local hops slot => [(hops, slot)]
  | .array items => Expr.listLocals items
  | .field stem _ | .method stem _ | .property stem _ => stem.locals
  | .index array index => array.locals ++ index.locals
  | .call callee args => callee.locals ++ Expr.listLocals args
  | .not operand | .intToFloat operand => operand.locals
  | .binary _ l r | .logic _ l r | .concat l r | .elementWise _ l r | .elementWiseMethod _ l r
  | .dotProduct l r => l.locals ++ r.locals
  | .assign target value => target.locals ++ value.locals
  | _ => []
/-- The variables that an assignment target names or reads. -/
def Place.locals : Place → List (Nat × Nat)
  | .local hops slot => [(hops, slot)]
  | .receiverField .. => []
  | .field stem _ => stem.locals
  | .index array index => array.locals ++ index.locals
/-- The variables that expressions read or assign, in order. -/
def Expr.listLocals : List Expr → List (Nat × Nat)
  | [] => []
  | e :: es => e.locals ++ Expr.listLocals es
end

theorem Expr.locals_eq (e : Expr) : e.locals = e.kind.locals := by
  cases e
  rfl

/-- The slots that a statement declares in the frame it runs in. -/
def Stmt.declares : Stmt → List Nat
  | .declare slot _ _ | .sizedArray slot _ _ _ => [slot]
  | _ => []

end Typed

/-- Slot `slot` of the block `hops` blocks up is declared, when `Δ` records that block: `Δ` holds
the declared slots of each block, innermost first. -/
def Declared (Δ : List (List Nat)) (hops slot : Nat) : Prop := ∀ D ∈ Δ[hops]?, slot ∈ D

/-- Every variable of `uses` is declared. -/
def AllDeclared (Δ : List (List Nat)) (uses : List (Nat × Nat)) : Prop :=
  ∀ u ∈ uses, Declared Δ u.1 u.2

/-- `Δ` with `slots` declared in its innermost block. -/
def declareIn (slots : List Nat) : List (List Nat) → List (List Nat)
  | [] => []
  | D :: Δ => (D ++ slots) :: Δ

namespace AllDeclared

variable {Δ : List (List Nat)} {us vs : List (Nat × Nat)}

theorem append_left (h : AllDeclared Δ (us ++ vs)) : AllDeclared Δ us :=
  fun u hu => h u (List.mem_append_left vs hu)

theorem append_right (h : AllDeclared Δ (us ++ vs)) : AllDeclared Δ vs :=
  fun u hu => h u (List.mem_append_right us hu)

theorem of_kind {e : Typed.Expr} {k : Typed.ExprKind} (h : AllDeclared Δ e.locals)
    (hk : e.kind = k) : AllDeclared Δ k.locals := by
  rw [Typed.Expr.locals_eq, hk] at h
  exact h

theorem list_cons {e : Typed.Expr} {es : List Typed.Expr}
    (h : AllDeclared Δ (Typed.Expr.listLocals (e :: es))) :
    AllDeclared Δ e.locals ∧ AllDeclared Δ (Typed.Expr.listLocals es) :=
  ⟨append_left h, append_right h⟩

end AllDeclared

namespace Typed

mutual
/-- A statement uses a variable of the blocks that `Δ` records only once its declaration has
run. -/
inductive Stmt.DeclaredUses : List (List Nat) → Stmt → Prop
  | block {Δ : List (List Nat)} {b : Block} {span : Span} :
      Stmt.ListDeclaredUses ([] :: Δ) b.statements → Stmt.DeclaredUses Δ (.block b span)
  | declare {Δ : List (List Nat)} {slot : Nat} {value : Expr} {span : Span} :
      AllDeclared Δ value.locals → Stmt.DeclaredUses Δ (.declare slot value span)
  | sizedArray {Δ : List (List Nat)} {slot : Nat} {element : Ty} {dims : List Nat} {span : Span} :
      Stmt.DeclaredUses Δ (.sizedArray slot element dims span)
  | ifElse {Δ : List (List Nat)} {cond : Expr} {thenBranch : Stmt} {elseBranch : Option Stmt}
      {span : Span} : AllDeclared Δ cond.locals → Stmt.DeclaredUses Δ thenBranch →
      (∀ e ∈ elseBranch, Stmt.DeclaredUses Δ e) →
      Stmt.DeclaredUses Δ (.ifElse cond thenBranch elseBranch span)
  | whileLoop {Δ : List (List Nat)} {cond : Expr} {body : Stmt} {span : Span} :
      AllDeclared Δ cond.locals → Stmt.DeclaredUses Δ body →
      Stmt.DeclaredUses Δ (.whileLoop cond body span)
  | ret {Δ : List (List Nat)} {value : Option Expr} {span : Span} :
      (∀ e ∈ value, AllDeclared Δ e.locals) → Stmt.DeclaredUses Δ (.ret value span)
  | expr {Δ : List (List Nat)} {e : Expr} {span : Span} :
      AllDeclared Δ e.locals → Stmt.DeclaredUses Δ (.expr e span)
/-- Statements in order, each after the declarations of those before it. -/
inductive Stmt.ListDeclaredUses : List (List Nat) → List Stmt → Prop
  | nil {Δ : List (List Nat)} : Stmt.ListDeclaredUses Δ []
  | cons {Δ : List (List Nat)} {s : Stmt} {ss : List Stmt} : Stmt.DeclaredUses Δ s →
      Stmt.ListDeclaredUses (declareIn s.declares Δ) ss → Stmt.ListDeclaredUses Δ (s :: ss)
end

/-- The statements of a block, which run in a frame of their own. -/
def Block.DeclaredUses (Δ : List (List Nat)) (b : Block) : Prop :=
  Stmt.ListDeclaredUses ([] :: Δ) b.statements

/-- The root block and the body of every function use the variables of their own blocks only
once declared. -/
def Program.DeclaresBeforeUse (p : Program) : Prop :=
  p.body.DeclaredUses [] ∧ ∀ f ∈ p.functions, f.body.DeclaredUses []

end Typed

/-- A block frame of the running function, with the slots whose declarations have run in it. -/
structure Opened where
  frame : Nat
  declared : List Nat
  deriving DecidableEq, Repr

namespace Opened

/-- The opened frames with `slots` declared in the innermost one. -/
def declareTop (slots : List Nat) : List Opened → List Opened
  | [] => []
  | o :: Γ => { o with declared := o.declared ++ slots } :: Γ

theorem declareTop_declared (slots : List Nat) (Γ : List Opened) :
    (declareTop slots Γ).map (·.declared) = declareIn slots (Γ.map (·.declared)) := by
  cases Γ <;> rfl

/-- From frame `env`, climbing `i` parents reaches the `i`-th opened frame. -/
def Reaches (m : Machine) (env : Nat) (Γ : List Opened) : Prop :=
  ∀ (i : Nat) (o : Opened), Γ[i]? = some o → m.ancestor env i = .ok o.frame

theorem Reaches.keep {m m' : Machine} {env : Nat} {Γ : List Opened} (h : Reaches m env Γ)
    (hk : m.KeepsParents m') : Reaches m' env Γ :=
  fun i o hi => hk.ancestor i env o.frame (h i o hi)

theorem Reaches.declareTop {m : Machine} {env : Nat} {Γ : List Opened} (h : Reaches m env Γ)
    (slots : List Nat) : Reaches m env (declareTop slots Γ) := by
  intro i o hi
  cases Γ with
  | nil => cases hi
  | cons o₀ Γ =>
    cases i with
    | zero =>
      cases hi
      exact h 0 o₀ rfl
    | succ i => exact h (i + 1) o hi

end Opened

namespace Run

/-- A call of a function of the interpreter, with its arguments but the fuel. -/
inductive Call where
  | eval (e : Typed.Expr) (env : Nat)
  | evalList (es : List Typed.Expr) (env : Nat)
  | evalBool (e : Typed.Expr) (env : Nat)
  | evalIndex (e : Typed.Expr) (env : Nat)
  | evalStruct (e : Typed.Expr) (env : Nat)
  | assign (target : Typed.Place) (value : Typed.Expr) (env : Nat) (span : Span)
  | call (callee : Value) (args : List Value) (span : Span)
  | elementWiseMethod (f : Typed.Function) (l r : Value) (span : Span)
  | elementWiseMethodList (f : Typed.Function) (pairs : List (Value × Value)) (span : Span)
  | invoke (f : Typed.Function) (parent : Nat) (args : List Value)
  | execBlock (b : Typed.Block) (env : Nat)
  | execStmts (ss : List Typed.Stmt) (env : Nat)
  | exec (s : Typed.Stmt) (env : Nat)
  | loop (cond : Typed.Expr) (body : Typed.Stmt) (env : Nat)

/-- The argument that an element-wise operator passes to the method `f`: an integer becomes a
float where the parameter is a float. -/
def methodArgument (f : Typed.Function) (argument : Value) : Value :=
  match argument, f.params.head? with
  | .int n, some (_, .float) => .float n.toFloat
  | a, _ => a

variable (p : Typed.Program)

/-- The calls that running `p` makes, each with its fuel, the machine it starts from and the
block frames that its function has opened. A call is made once every call before it in the same
body has returned a value, the value it goes on with. -/
inductive Visits : Nat → Call → List Opened → Machine → Prop
  | root {fuel root : Nat} {m m₁ : Machine}
      (h : (newFrame none none (.replicate p.body.slots .null)).run.run m = (.ok root, m₁)) :
      Visits fuel (.execStmts p.body.statements root) [⟨root, []⟩] m₁
  | evalArray {fuel env : Nat} {e : Typed.Expr} {Γ : List Opened} {m : Machine}
      {items : List Typed.Expr} (h : Visits (fuel + 1) (.eval e env) Γ m)
      (hk : e.kind = .array items) : Visits fuel (.evalList items env) Γ m
  | evalField {fuel env field : Nat} {e stem : Typed.Expr} {Γ : List Opened} {m : Machine}
      (h : Visits (fuel + 1) (.eval e env) Γ m) (hk : e.kind = .field stem field) :
      Visits fuel (.evalStruct stem env) Γ m
  | evalMethod {fuel env fn : Nat} {e stem : Typed.Expr} {Γ : List Opened} {m : Machine}
      (h : Visits (fuel + 1) (.eval e env) Γ m) (hk : e.kind = .method stem fn) :
      Visits fuel (.evalStruct stem env) Γ m
  | evalProperty {fuel env : Nat} {e stem : Typed.Expr} {prop : Typed.Property} {Γ : List Opened}
      {m : Machine} (h : Visits (fuel + 1) (.eval e env) Γ m) (hk : e.kind = .property stem prop) :
      Visits fuel (.eval stem env) Γ m
  | evalIndexArray {fuel env : Nat} {e array index : Typed.Expr} {Γ : List Opened} {m : Machine}
      (h : Visits (fuel + 1) (.eval e env) Γ m) (hk : e.kind = .index array index) :
      Visits fuel (.eval array env) Γ m
  | evalIndexPosition {fuel env : Nat} {e array index : Typed.Expr} {Γ : List Opened}
      {m m₁ : Machine} {a : Value} (h : Visits (fuel + 1) (.eval e env) Γ m)
      (hk : e.kind = .index array index) (ha : (eval p fuel array env).run.run m = (.ok a, m₁)) :
      Visits fuel (.evalIndex index env) Γ m₁
  | evalCallee {fuel env : Nat} {e callee : Typed.Expr} {args : List Typed.Expr} {Γ : List Opened}
      {m : Machine} (h : Visits (fuel + 1) (.eval e env) Γ m) (hk : e.kind = .call callee args) :
      Visits fuel (.eval callee env) Γ m
  | evalArgs {fuel env : Nat} {e callee : Typed.Expr} {args : List Typed.Expr} {Γ : List Opened}
      {m m₁ : Machine} {c : Value} (h : Visits (fuel + 1) (.eval e env) Γ m)
      (hk : e.kind = .call callee args) (hc : (eval p fuel callee env).run.run m = (.ok c, m₁)) :
      Visits fuel (.evalList args env) Γ m₁
  | evalCall {fuel env : Nat} {e callee : Typed.Expr} {args : List Typed.Expr} {Γ : List Opened}
      {m m₁ m₂ : Machine} {c : Value} {vs : List Value} (h : Visits (fuel + 1) (.eval e env) Γ m)
      (hk : e.kind = .call callee args) (hc : (eval p fuel callee env).run.run m = (.ok c, m₁))
      (hvs : (evalList p fuel args env).run.run m₁ = (.ok vs, m₂)) :
      Visits fuel (.call c vs e.span) Γ m₂
  | evalNot {fuel env : Nat} {e operand : Typed.Expr} {Γ : List Opened} {m : Machine}
      (h : Visits (fuel + 1) (.eval e env) Γ m) (hk : e.kind = .not operand) :
      Visits fuel (.evalBool operand env) Γ m
  | evalBinaryLeft {fuel env : Nat} {e l r : Typed.Expr} {op : BinOp} {Γ : List Opened}
      {m : Machine} (h : Visits (fuel + 1) (.eval e env) Γ m) (hk : e.kind = .binary op l r) :
      Visits fuel (.eval l env) Γ m
  | evalBinaryRight {fuel env : Nat} {e l r : Typed.Expr} {op : BinOp} {Γ : List Opened}
      {m m₁ : Machine} {lv : Value} (h : Visits (fuel + 1) (.eval e env) Γ m)
      (hk : e.kind = .binary op l r) (hl : (eval p fuel l env).run.run m = (.ok lv, m₁)) :
      Visits fuel (.eval r env) Γ m₁
  | evalLogicLeft {fuel env : Nat} {e l r : Typed.Expr} {op : BinOp} {Γ : List Opened}
      {m : Machine} (h : Visits (fuel + 1) (.eval e env) Γ m) (hk : e.kind = .logic op l r) :
      Visits fuel (.evalBool l env) Γ m
  | evalLogicRight {fuel env : Nat} {e l r : Typed.Expr} {op : BinOp} {Γ : List Opened}
      {m m₁ : Machine} {lb : Bool} (h : Visits (fuel + 1) (.eval e env) Γ m)
      (hk : e.kind = .logic op l r) (hl : (evalBool p fuel l env).run.run m = (.ok lb, m₁))
      (hgo : lb = (op == .and)) : Visits fuel (.evalBool r env) Γ m₁
  | evalConcatLeft {fuel env : Nat} {e l r : Typed.Expr} {Γ : List Opened} {m : Machine}
      (h : Visits (fuel + 1) (.eval e env) Γ m) (hk : e.kind = .concat l r) :
      Visits fuel (.eval l env) Γ m
  | evalConcatRight {fuel env : Nat} {e l r : Typed.Expr} {Γ : List Opened} {m m₁ : Machine}
      {lv : Value} (h : Visits (fuel + 1) (.eval e env) Γ m) (hk : e.kind = .concat l r)
      (hl : (eval p fuel l env).run.run m = (.ok lv, m₁)) : Visits fuel (.eval r env) Γ m₁
  | evalElementWiseLeft {fuel env : Nat} {e l r : Typed.Expr} {op : BinOp} {Γ : List Opened}
      {m : Machine} (h : Visits (fuel + 1) (.eval e env) Γ m) (hk : e.kind = .elementWise op l r) :
      Visits fuel (.eval l env) Γ m
  | evalElementWiseRight {fuel env : Nat} {e l r : Typed.Expr} {op : BinOp} {Γ : List Opened}
      {m m₁ : Machine} {lv : Value} (h : Visits (fuel + 1) (.eval e env) Γ m)
      (hk : e.kind = .elementWise op l r) (hl : (eval p fuel l env).run.run m = (.ok lv, m₁)) :
      Visits fuel (.eval r env) Γ m₁
  | evalElementWiseMethodLeft {fuel env fn : Nat} {e l r : Typed.Expr} {Γ : List Opened}
      {m m₁ : Machine} {f : Typed.Function} (h : Visits (fuel + 1) (.eval e env) Γ m)
      (hk : e.kind = .elementWiseMethod fn l r)
      (hf : (function p fn e.span).run.run m = (.ok f, m₁)) : Visits fuel (.eval l env) Γ m₁
  | evalElementWiseMethodRight {fuel env fn : Nat} {e l r : Typed.Expr} {Γ : List Opened}
      {m m₁ m₂ : Machine} {f : Typed.Function} {lv : Value}
      (h : Visits (fuel + 1) (.eval e env) Γ m) (hk : e.kind = .elementWiseMethod fn l r)
      (hf : (function p fn e.span).run.run m = (.ok f, m₁))
      (hl : (eval p fuel l env).run.run m₁ = (.ok lv, m₂)) : Visits fuel (.eval r env) Γ m₂
  | evalElementWiseMethodApply {fuel env fn : Nat} {e l r : Typed.Expr} {Γ : List Opened}
      {m m₁ m₂ m₃ : Machine} {f : Typed.Function} {lv rv : Value}
      (h : Visits (fuel + 1) (.eval e env) Γ m) (hk : e.kind = .elementWiseMethod fn l r)
      (hf : (function p fn e.span).run.run m = (.ok f, m₁))
      (hl : (eval p fuel l env).run.run m₁ = (.ok lv, m₂))
      (hr : (eval p fuel r env).run.run m₂ = (.ok rv, m₃)) :
      Visits fuel (.elementWiseMethod f lv rv e.span) Γ m₃
  | evalDotLeft {fuel env : Nat} {e l r : Typed.Expr} {shape : Typed.DotShape} {Γ : List Opened}
      {m : Machine} (h : Visits (fuel + 1) (.eval e env) Γ m) (hk : e.kind = .dotProduct l r)
      (hs : Typed.DotShape.ofDepths? l.ty.depth r.ty.depth = some shape) :
      Visits fuel (.eval l env) Γ m
  | evalDotRight {fuel env : Nat} {e l r : Typed.Expr} {shape : Typed.DotShape} {Γ : List Opened}
      {m m₁ : Machine} {lv : Value} (h : Visits (fuel + 1) (.eval e env) Γ m)
      (hk : e.kind = .dotProduct l r)
      (hs : Typed.DotShape.ofDepths? l.ty.depth r.ty.depth = some shape)
      (hl : (eval p fuel l env).run.run m = (.ok lv, m₁)) : Visits fuel (.eval r env) Γ m₁
  | evalAssign {fuel env : Nat} {e value : Typed.Expr} {target : Typed.Place} {Γ : List Opened}
      {m : Machine} (h : Visits (fuel + 1) (.eval e env) Γ m) (hk : e.kind = .assign target value) :
      Visits fuel (.assign target value env e.span) Γ m
  | evalIntToFloat {fuel env : Nat} {e inner : Typed.Expr} {Γ : List Opened} {m : Machine}
      (h : Visits (fuel + 1) (.eval e env) Γ m) (hk : e.kind = .intToFloat inner) :
      Visits fuel (.eval inner env) Γ m
  | evalListHead {fuel env : Nat} {e : Typed.Expr} {es : List Typed.Expr} {Γ : List Opened}
      {m : Machine} (h : Visits (fuel + 1) (.evalList (e :: es) env) Γ m) :
      Visits fuel (.eval e env) Γ m
  | evalListTail {fuel env : Nat} {e : Typed.Expr} {es : List Typed.Expr} {Γ : List Opened}
      {m m₁ : Machine} {v : Value} (h : Visits (fuel + 1) (.evalList (e :: es) env) Γ m)
      (he : (eval p fuel e env).run.run m = (.ok v, m₁)) : Visits fuel (.evalList es env) Γ m₁
  | evalBool {fuel env : Nat} {e : Typed.Expr} {Γ : List Opened} {m : Machine}
      (h : Visits (fuel + 1) (.evalBool e env) Γ m) : Visits fuel (.eval e env) Γ m
  | evalIndex {fuel env : Nat} {e : Typed.Expr} {Γ : List Opened} {m : Machine}
      (h : Visits (fuel + 1) (.evalIndex e env) Γ m) : Visits fuel (.eval e env) Γ m
  | evalStruct {fuel env : Nat} {e : Typed.Expr} {Γ : List Opened} {m : Machine}
      (h : Visits (fuel + 1) (.evalStruct e env) Γ m) : Visits fuel (.eval e env) Γ m
  | assignLocal {fuel env hops slot : Nat} {value : Typed.Expr} {span : Span} {Γ : List Opened}
      {m : Machine} (h : Visits (fuel + 1) (.assign (.local hops slot) value env span) Γ m) :
      Visits fuel (.eval value env) Γ m
  | assignReceiverField {fuel env hops field r : Nat} {value : Typed.Expr} {span : Span}
      {Γ : List Opened} {m m₁ : Machine}
      (h : Visits (fuel + 1) (.assign (.receiverField hops field) value env span) Γ m)
      (hr : (receiverAt env hops span).run.run m = (.ok r, m₁)) : Visits fuel (.eval value env) Γ m₁
  | assignFieldStem {fuel env field : Nat} {stem value : Typed.Expr} {span : Span} {Γ : List Opened}
      {m : Machine} (h : Visits (fuel + 1) (.assign (.field stem field) value env span) Γ m) :
      Visits fuel (.evalStruct stem env) Γ m
  | assignFieldValue {fuel env field inst : Nat} {stem value : Typed.Expr} {span : Span}
      {Γ : List Opened} {m m₁ : Machine}
      (h : Visits (fuel + 1) (.assign (.field stem field) value env span) Γ m)
      (hs : (evalStruct p fuel stem env).run.run m = (.ok inst, m₁)) :
      Visits fuel (.eval value env) Γ m₁
  | assignIndexArray {fuel env : Nat} {array index value : Typed.Expr} {span : Span}
      {Γ : List Opened} {m : Machine}
      (h : Visits (fuel + 1) (.assign (.index array index) value env span) Γ m) :
      Visits fuel (.eval array env) Γ m
  | assignIndexPosition {fuel env : Nat} {array index value : Typed.Expr} {span : Span}
      {Γ : List Opened} {m m₁ : Machine} {a : Value}
      (h : Visits (fuel + 1) (.assign (.index array index) value env span) Γ m)
      (ha : (eval p fuel array env).run.run m = (.ok a, m₁)) :
      Visits fuel (.evalIndex index env) Γ m₁
  | assignIndexValue {fuel env : Nat} {array index value : Typed.Expr} {span : Span}
      {Γ : List Opened} {m m₁ m₂ : Machine} {a : Value} {i : Int64}
      (h : Visits (fuel + 1) (.assign (.index array index) value env span) Γ m)
      (ha : (eval p fuel array env).run.run m = (.ok a, m₁))
      (hi : (evalIndex p fuel index env).run.run m₁ = (.ok i, m₂)) :
      Visits fuel (.eval value env) Γ m₂
  | callClosure {fuel fn frame : Nat} {args : List Value} {span : Span} {Γ : List Opened}
      {m m₁ : Machine} {f : Typed.Function}
      (h : Visits (fuel + 1) (.call (.closure fn frame) args span) Γ m)
      (hf : (function p fn span).run.run m = (.ok f, m₁)) : Visits fuel (.invoke f frame args) [] m₁
  | callMethod {fuel receiver fn frame : Nat} {args : List Value} {span : Span} {Γ : List Opened}
      {m m₁ m₂ : Machine} {f : Typed.Function}
      (h : Visits (fuel + 1) (.call (.method receiver fn) args span) Γ m)
      (hf : (function p fn span).run.run m = (.ok f, m₁))
      (hframe : (newFrame (some (match m₁.inst? receiver with
          | some (_, frame, _) => frame
          | none => 0)) (some receiver) #[]).run.run m₁ = (.ok frame, m₂)) :
      Visits fuel (.invoke f frame args) [] m₂
  | elementWiseArrays {fuel a b : Nat} {f : Typed.Function} {span : Span} {Γ : List Opened}
      {m : Machine} (h : Visits (fuel + 1) (.elementWiseMethod f (.array a) (.array b) span) Γ m)
      (hsize : ((m.items? a).getD #[]).size = ((m.items? b).getD #[]).size) :
      Visits fuel (.elementWiseMethodList f
        (((m.items? a).getD #[]).toList.zip ((m.items? b).getD #[]).toList) span) Γ m
  | elementWiseStruct {fuel receiver : Nat} {f : Typed.Function} {argument : Value} {span : Span}
      {Γ : List Opened} {m : Machine}
      (h : Visits (fuel + 1) (.elementWiseMethod f (.struct receiver) argument span) Γ m) :
      Visits fuel (.call (.method receiver f.id) [methodArgument f argument] span) Γ m
  | elementWiseHead {fuel : Nat} {f : Typed.Function} {a b : Value} {rest : List (Value × Value)}
      {span : Span} {Γ : List Opened} {m : Machine}
      (h : Visits (fuel + 1) (.elementWiseMethodList f ((a, b) :: rest) span) Γ m) :
      Visits fuel (.elementWiseMethod f a b span) Γ m
  | elementWiseTail {fuel : Nat} {f : Typed.Function} {a b v : Value} {rest : List (Value × Value)}
      {span : Span} {Γ : List Opened} {m m₁ : Machine}
      (h : Visits (fuel + 1) (.elementWiseMethodList f ((a, b) :: rest) span) Γ m)
      (hv : (elementWiseMethod p fuel f a b span).run.run m = (.ok v, m₁)) :
      Visits fuel (.elementWiseMethodList f rest span) Γ m₁
  | invoke {fuel parent frame : Nat} {f : Typed.Function} {args : List Value} {Γ : List Opened}
      {m m₁ : Machine} (h : Visits (fuel + 1) (.invoke f parent args) Γ m)
      (hframe : (newFrame (some parent) none args.toArray).run.run m = (.ok frame, m₁)) :
      Visits fuel (.execBlock f.body frame) [] m₁
  | execBlock {fuel env frame : Nat} {b : Typed.Block} {Γ : List Opened} {m m₁ : Machine}
      (h : Visits (fuel + 1) (.execBlock b env) Γ m)
      (hframe : (newFrame (some env) none (.replicate b.slots .null)).run.run m = (.ok frame, m₁)) :
      Visits fuel (.execStmts b.statements frame) (⟨frame, []⟩ :: Γ) m₁
  | execStmtsHead {fuel env : Nat} {s : Typed.Stmt} {rest : List Typed.Stmt} {Γ : List Opened}
      {m : Machine} (h : Visits (fuel + 1) (.execStmts (s :: rest) env) Γ m) :
      Visits fuel (.exec s env) Γ m
  | execStmtsTail {fuel env : Nat} {s : Typed.Stmt} {rest : List Typed.Stmt} {Γ : List Opened}
      {m m₁ : Machine} (h : Visits (fuel + 1) (.execStmts (s :: rest) env) Γ m)
      (hs : (exec p fuel s env).run.run m = (.ok .normal, m₁)) :
      Visits fuel (.execStmts rest env) (Opened.declareTop s.declares Γ) m₁
  | execBlockStmt {fuel env : Nat} {b : Typed.Block} {span : Span} {Γ : List Opened} {m : Machine}
      (h : Visits (fuel + 1) (.exec (.block b span) env) Γ m) : Visits fuel (.execBlock b env) Γ m
  | execDeclare {fuel env slot : Nat} {value : Typed.Expr} {span : Span} {Γ : List Opened}
      {m : Machine} (h : Visits (fuel + 1) (.exec (.declare slot value span) env) Γ m) :
      Visits fuel (.eval value env) Γ m
  | execCondition {fuel env : Nat} {cond : Typed.Expr} {thenBranch : Typed.Stmt}
      {elseBranch : Option Typed.Stmt} {span : Span} {Γ : List Opened} {m : Machine}
      (h : Visits (fuel + 1) (.exec (.ifElse cond thenBranch elseBranch span) env) Γ m) :
      Visits fuel (.evalBool cond env) Γ m
  | execThen {fuel env : Nat} {cond : Typed.Expr} {thenBranch : Typed.Stmt}
      {elseBranch : Option Typed.Stmt} {span : Span} {Γ : List Opened} {m m₁ : Machine}
      (h : Visits (fuel + 1) (.exec (.ifElse cond thenBranch elseBranch span) env) Γ m)
      (hc : (evalBool p fuel cond env).run.run m = (.ok true, m₁)) :
      Visits fuel (.exec thenBranch env) Γ m₁
  | execElse {fuel env : Nat} {cond : Typed.Expr} {thenBranch elseBranch : Typed.Stmt}
      {span : Span} {Γ : List Opened} {m m₁ : Machine}
      (h : Visits (fuel + 1) (.exec (.ifElse cond thenBranch (some elseBranch) span) env) Γ m)
      (hc : (evalBool p fuel cond env).run.run m = (.ok false, m₁)) :
      Visits fuel (.exec elseBranch env) Γ m₁
  | execWhile {fuel env : Nat} {cond : Typed.Expr} {body : Typed.Stmt} {span : Span}
      {Γ : List Opened} {m : Machine}
      (h : Visits (fuel + 1) (.exec (.whileLoop cond body span) env) Γ m) :
      Visits fuel (.loop cond body env) Γ m
  | execReturn {fuel env : Nat} {e : Typed.Expr} {span : Span} {Γ : List Opened} {m : Machine}
      (h : Visits (fuel + 1) (.exec (.ret (some e) span) env) Γ m) : Visits fuel (.eval e env) Γ m
  | execExpr {fuel env : Nat} {e : Typed.Expr} {span : Span} {Γ : List Opened} {m : Machine}
      (h : Visits (fuel + 1) (.exec (.expr e span) env) Γ m) : Visits fuel (.eval e env) Γ m
  | loopCondition {fuel env : Nat} {cond : Typed.Expr} {body : Typed.Stmt} {Γ : List Opened}
      {m : Machine} (h : Visits (fuel + 1) (.loop cond body env) Γ m) :
      Visits fuel (.evalBool cond env) Γ m
  | loopBody {fuel env : Nat} {cond : Typed.Expr} {body : Typed.Stmt} {Γ : List Opened}
      {m m₁ : Machine} (h : Visits (fuel + 1) (.loop cond body env) Γ m)
      (hc : (evalBool p fuel cond env).run.run m = (.ok true, m₁)) :
      Visits fuel (.exec body env) Γ m₁
  | loopAgain {fuel env : Nat} {cond : Typed.Expr} {body : Typed.Stmt} {Γ : List Opened}
      {m m₁ m₂ : Machine} (h : Visits (fuel + 1) (.loop cond body env) Γ m)
      (hc : (evalBool p fuel cond env).run.run m = (.ok true, m₁))
      (hb : (exec p fuel body env).run.run m₁ = (.ok .normal, m₂)) :
      Visits fuel (.loop cond body env) Γ m₂

theorem newFrame_run (parent receiver : Option Nat) (slots : Array Value) (m : Machine) :
    (newFrame parent receiver slots).run.run m =
      (.ok m.frames.size, (m.pushFrame ⟨slots, parent, receiver⟩).2) := rfl

theorem function_run {fn : Nat} {span : Span} {m m₁ : Machine} {f : Typed.Function}
    (h : (function p fn span).run.run m = (.ok f, m₁)) : f ∈ p.functions := by
  unfold function at h
  split at h
  next f' hf =>
    cases h
    exact Array.mem_of_getElem? hf
  next => cases h

/-- What a call owes to the blocks that its function has opened: the frame it runs in reaches
their frames, and its syntax uses only their declared slots. A function it invokes has a body
that uses its own blocks so from the start. -/
def Call.Covered (m : Machine) (Γ : List Opened) : Call → Prop
  | .eval e env | .evalBool e env | .evalIndex e env | .evalStruct e env =>
    Opened.Reaches m env Γ ∧ AllDeclared (Γ.map (·.declared)) e.locals
  | .evalList es env =>
    Opened.Reaches m env Γ ∧ AllDeclared (Γ.map (·.declared)) (Typed.Expr.listLocals es)
  | .assign target value env _ =>
    Opened.Reaches m env Γ ∧ AllDeclared (Γ.map (·.declared)) (target.locals ++ value.locals)
  | .invoke f _ _ => f.body.DeclaredUses []
  | .execBlock b env => Opened.Reaches m env Γ ∧ b.DeclaredUses (Γ.map (·.declared))
  | .execStmts ss env =>
    Opened.Reaches m env Γ ∧ Typed.Stmt.ListDeclaredUses (Γ.map (·.declared)) ss
  | .exec s env => Opened.Reaches m env Γ ∧ s.DeclaredUses (Γ.map (·.declared))
  | .loop cond body env =>
    Opened.Reaches m env Γ ∧ AllDeclared (Γ.map (·.declared)) cond.locals ∧
      body.DeclaredUses (Γ.map (·.declared))
  | .call .. | .elementWiseMethod .. | .elementWiseMethodList .. => True

theorem Opened.Reaches.push {m m₁ : Machine} {env frame : Nat} {Γ : List Opened}
    {slots : Array Value} (h : Opened.Reaches m env Γ)
    (hframe : (newFrame (some env) none slots).run.run m = (.ok frame, m₁)) :
    Opened.Reaches m₁ frame (⟨frame, []⟩ :: Γ) := by
  rw [newFrame_run] at hframe
  cases hframe
  have hk := m.keepsParents_pushFrame ⟨slots, some env, none⟩
  intro i o hi
  cases i with
  | zero =>
    cases hi
    rfl
  | succ i =>
    have hparent : ((m.pushFrame ⟨slots, some env, none⟩).2.frames[m.frames.size]?.bind
        (·.parent)) = some env := by
      simp [Machine.pushFrame]
    rw [Machine.ancestor, hparent]
    exact (h.keep hk) i o hi

theorem Opened.reaches_root {m₁ : Machine} {root : Nat} :
    Opened.Reaches m₁ root [⟨root, []⟩] := by
  intro i o hi
  cases i with
  | zero =>
    cases hi
    rfl
  | succ i => cases hi

variable {p}

theorem Visits.covered (hp : p.DeclaresBeforeUse) {fuel : Nat} {c : Call} {Γ : List Opened}
    {m : Machine} (h : Visits p fuel c Γ m) : c.Covered m Γ := by
  have kp := keepsParentsAt p
  induction h with
  | root _ => exact ⟨Opened.reaches_root, hp.1⟩
  | evalArray _ hk ih => exact ⟨ih.1, ih.2.of_kind hk⟩
  | evalField _ hk ih => exact ⟨ih.1, ih.2.of_kind hk⟩
  | evalMethod _ hk ih => exact ⟨ih.1, ih.2.of_kind hk⟩
  | evalProperty _ hk ih => exact ⟨ih.1, ih.2.of_kind hk⟩
  | evalIndexArray _ hk ih => exact ⟨ih.1, (ih.2.of_kind hk).append_left⟩
  | evalIndexPosition _ hk ha ih =>
    exact ⟨ih.1.keep (((kp _).eval _ _).of_run ha), (ih.2.of_kind hk).append_right⟩
  | evalCallee _ hk ih => exact ⟨ih.1, (ih.2.of_kind hk).append_left⟩
  | evalArgs _ hk hc ih =>
    exact ⟨ih.1.keep (((kp _).eval _ _).of_run hc), (ih.2.of_kind hk).append_right⟩
  | evalCall => trivial
  | evalNot _ hk ih => exact ⟨ih.1, ih.2.of_kind hk⟩
  | evalBinaryLeft _ hk ih => exact ⟨ih.1, (ih.2.of_kind hk).append_left⟩
  | evalBinaryRight _ hk hl ih =>
    exact ⟨ih.1.keep (((kp _).eval _ _).of_run hl), (ih.2.of_kind hk).append_right⟩
  | evalLogicLeft _ hk ih => exact ⟨ih.1, (ih.2.of_kind hk).append_left⟩
  | evalLogicRight _ hk hl _ ih =>
    exact ⟨ih.1.keep (((kp _).evalBool _ _).of_run hl), (ih.2.of_kind hk).append_right⟩
  | evalConcatLeft _ hk ih => exact ⟨ih.1, (ih.2.of_kind hk).append_left⟩
  | evalConcatRight _ hk hl ih =>
    exact ⟨ih.1.keep (((kp _).eval _ _).of_run hl), (ih.2.of_kind hk).append_right⟩
  | evalElementWiseLeft _ hk ih => exact ⟨ih.1, (ih.2.of_kind hk).append_left⟩
  | evalElementWiseRight _ hk hl ih =>
    exact ⟨ih.1.keep (((kp _).eval _ _).of_run hl), (ih.2.of_kind hk).append_right⟩
  | evalElementWiseMethodLeft _ hk hf ih =>
    exact ⟨ih.1.keep ((function_keepsParents p _ _).of_run hf), (ih.2.of_kind hk).append_left⟩
  | evalElementWiseMethodRight _ hk hf hl ih =>
    exact ⟨(ih.1.keep ((function_keepsParents p _ _).of_run hf)).keep
      (((kp _).eval _ _).of_run hl), (ih.2.of_kind hk).append_right⟩
  | evalElementWiseMethodApply => trivial
  | evalDotLeft _ hk _ ih => exact ⟨ih.1, (ih.2.of_kind hk).append_left⟩
  | evalDotRight _ hk _ hl ih =>
    exact ⟨ih.1.keep (((kp _).eval _ _).of_run hl), (ih.2.of_kind hk).append_right⟩
  | evalAssign _ hk ih => exact ⟨ih.1, ih.2.of_kind hk⟩
  | evalIntToFloat _ hk ih => exact ⟨ih.1, ih.2.of_kind hk⟩
  | evalListHead _ ih => exact ⟨ih.1, ih.2.list_cons.1⟩
  | evalListTail _ he ih => exact ⟨ih.1.keep (((kp _).eval _ _).of_run he), ih.2.list_cons.2⟩
  | evalBool _ ih => exact ih
  | evalIndex _ ih => exact ih
  | evalStruct _ ih => exact ih
  | assignLocal _ ih => exact ⟨ih.1, ih.2.append_right⟩
  | assignReceiverField _ hr ih =>
    exact ⟨ih.1.keep ((receiverAt_keepsParents _ _ _).of_run hr), ih.2.append_right⟩
  | assignFieldStem _ ih => exact ⟨ih.1, ih.2.append_left⟩
  | assignFieldValue _ hs ih =>
    exact ⟨ih.1.keep (((kp _).evalStruct _ _).of_run hs), ih.2.append_right⟩
  | assignIndexArray _ ih => exact ⟨ih.1, ih.2.append_left.append_left⟩
  | assignIndexPosition _ ha ih =>
    exact ⟨ih.1.keep (((kp _).eval _ _).of_run ha), ih.2.append_left.append_right⟩
  | assignIndexValue _ ha hi ih =>
    exact ⟨(ih.1.keep (((kp _).eval _ _).of_run ha)).keep (((kp _).evalIndex _ _).of_run hi),
      ih.2.append_right⟩
  | callClosure _ hf => exact hp.2 _ (function_run p hf)
  | callMethod _ hf => exact hp.2 _ (function_run p hf)
  | elementWiseArrays => trivial
  | elementWiseStruct => trivial
  | elementWiseHead => trivial
  | elementWiseTail => trivial
  | invoke _ _ ih => exact ⟨fun _ _ hi => by simp at hi, ih⟩
  | execBlock _ hframe ih => exact ⟨Opened.Reaches.push ih.1 hframe, ih.2⟩
  | execStmtsHead _ ih =>
    obtain ⟨hr, hss⟩ := ih
    cases hss with
    | cons hs _ => exact ⟨hr, hs⟩
  | @execStmtsTail _ _ s _ Γ _ _ _ hs ih =>
    obtain ⟨hr, hss⟩ := ih
    cases hss with
    | cons _ hrest =>
      refine ⟨(hr.keep (((kp _).exec _ _).of_run hs)).declareTop _, ?_⟩
      rw [Opened.declareTop_declared]
      exact hrest
  | execBlockStmt _ ih =>
    obtain ⟨hr, hs⟩ := ih
    cases hs with
    | block hb => exact ⟨hr, hb⟩
  | execDeclare _ ih =>
    obtain ⟨hr, hs⟩ := ih
    cases hs with
    | declare hv => exact ⟨hr, hv⟩
  | execCondition _ ih =>
    obtain ⟨hr, hs⟩ := ih
    cases hs with
    | ifElse hc _ _ => exact ⟨hr, hc⟩
  | execThen _ hc ih =>
    obtain ⟨hr, hs⟩ := ih
    cases hs with
    | ifElse _ ht _ => exact ⟨hr.keep (((kp _).evalBool _ _).of_run hc), ht⟩
  | execElse _ hc ih =>
    obtain ⟨hr, hs⟩ := ih
    cases hs with
    | ifElse _ _ he => exact ⟨hr.keep (((kp _).evalBool _ _).of_run hc), he _ rfl⟩
  | execWhile _ ih =>
    obtain ⟨hr, hs⟩ := ih
    cases hs with
    | whileLoop hc hb => exact ⟨hr, hc, hb⟩
  | execReturn _ ih =>
    obtain ⟨hr, hs⟩ := ih
    cases hs with
    | ret hv => exact ⟨hr, hv _ rfl⟩
  | execExpr _ ih =>
    obtain ⟨hr, hs⟩ := ih
    cases hs with
    | expr he => exact ⟨hr, he⟩
  | loopCondition _ ih => exact ⟨ih.1, ih.2.1⟩
  | loopBody _ hc ih => exact ⟨ih.1.keep (((kp _).evalBool _ _).of_run hc), ih.2.2⟩
  | loopAgain _ hc hb ih =>
    exact ⟨(ih.1.keep (((kp _).evalBool _ _).of_run hc)).keep (((kp _).exec _ _).of_run hb), ih.2⟩

theorem Opened.Reaches.declared {m : Machine} {env hops slot : Nat} {Γ : List Opened}
    (hr : Opened.Reaches m env Γ) (hd : Declared (Γ.map (·.declared)) hops slot) {o : Opened}
    (ho : Γ[hops]? = some o) : m.ancestor env hops = .ok o.frame ∧ slot ∈ o.declared :=
  ⟨hr hops o ho, hd o.declared (by simp [ho])⟩

theorem Visits.local_declared (hp : p.DeclaresBeforeUse) {fuel : Nat} {c : Call}
    {Γ : List Opened} {m : Machine} (h : Visits p fuel c Γ m) :
    (∀ e env hops slot, c = .eval e env → e.kind = .local hops slot →
      ∀ o ∈ Γ[hops]?, m.ancestor env hops = .ok o.frame ∧ slot ∈ o.declared) ∧
    (∀ hops slot value env span, c = .assign (.local hops slot) value env span →
      ∀ o ∈ Γ[hops]?, m.ancestor env hops = .ok o.frame ∧ slot ∈ o.declared) := by
  have hc := h.covered hp
  refine ⟨fun e env hops slot hcall hk o ho => ?_, fun hops slot value env span hcall o ho => ?_⟩
  · subst hcall
    exact Opened.Reaches.declared hc.1 (hc.2.of_kind hk (hops, slot) (List.mem_singleton_self _)) ho
  · subst hcall
    exact Opened.Reaches.declared hc.1
      (hc.2 (hops, slot) (List.mem_append_left _ (List.mem_singleton_self _))) ho

end Run

end Sigh
