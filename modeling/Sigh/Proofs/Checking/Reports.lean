import Mathlib
import Sigh.Typing.Check

namespace Sigh.Typing

theorem run_bind {α β : Type} (x : CheckM α) (f : α → CheckM β) (c : Checker) :
    (x >>= f).run c = (f (x.run c).1).run (x.run c).2 := rfl

theorem report_run (span : Span) (message : String) (c : Checker) :
    (report span message).run c =
      ((), { c with diagnostics := c.diagnostics.push ⟨.semantic, message, span⟩ }) := rfl

@[simp] theorem run_pure {α : Type} (a : α) (c : Checker) : (pure a : CheckM α).run c = (a, c) := rfl

/-- `c'` is `c` with diagnostics added after its own, and nothing else changed. -/
def Checker.Adds (c c' : Checker) : Prop := ∃ ds, c' = { c with diagnostics := c.diagnostics ++ ds }

namespace Checker.Adds

theorem refl (c : Checker) : c.Adds c := ⟨#[], by simp⟩

theorem trans {c₁ c₂ c₃ : Checker} (h₁ : c₁.Adds c₂) (h₂ : c₂.Adds c₃) : c₁.Adds c₃ := by
  obtain ⟨ds₁, rfl⟩ := h₁
  obtain ⟨ds₂, rfl⟩ := h₂
  exact ⟨ds₁ ++ ds₂, by simp [Array.append_assoc]⟩

theorem size_le {c c' : Checker} (h : c.Adds c') : c.diagnostics.size ≤ c'.diagnostics.size := by
  obtain ⟨ds, rfl⟩ := h
  simp

end Checker.Adds

/-- A check that only adds diagnostics, and whose result satisfies `ok` when it adds none. -/
def Quietly {α : Type} (ok : α → Prop) (x : CheckM α) : Prop :=
  ∀ c, c.Adds (x.run c).2 ∧ ((x.run c).2.diagnostics.size = c.diagnostics.size → ok (x.run c).1)

namespace Quietly

variable {α β : Type} {ok : α → Prop} {x : CheckM α}

theorem pure {a : α} (h : ok a) : Quietly ok (pure a) := fun c => ⟨.refl c, fun _ => h⟩

theorem mono {ok' : α → Prop} (hx : Quietly ok x) (h : ∀ a, ok a → ok' a) : Quietly ok' x :=
  fun c => ⟨(hx c).1, fun hq => h _ ((hx c).2 hq)⟩

theorem bind {p : α → Prop} {q : β → Prop} {f : α → CheckM β} (hx : Quietly p x)
    (hf : ∀ a, Quietly (fun b => p a → q b) (f a)) : Quietly q (x >>= f) := by
  intro c
  obtain ⟨hxa, hxq⟩ := hx c
  obtain ⟨hfa, hfq⟩ := hf (x.run c).1 (x.run c).2
  refine ⟨hxa.trans hfa, fun hq => ?_⟩
  have h₁ := hxa.size_le
  have h₂ := hfa.size_le
  rw [run_bind] at hq ⊢
  exact hfq (by omega) (hxq (by omega))

theorem report_bind {span : Span} {message : String} {f : Unit → CheckM α}
    (hf : ∀ u, Quietly (fun _ => True) (f u)) : Quietly ok (report span message >>= f) := by
  intro c
  obtain ⟨hfa, -⟩ := hf () { c with diagnostics := c.diagnostics.push ⟨.semantic, message, span⟩ }
  refine ⟨(Checker.Adds.trans ⟨#[⟨.semantic, message, span⟩], rfl⟩ hfa), fun hq => ?_⟩
  have := hfa.size_le
  rw [run_bind, report_run] at hq
  dsimp only at hq
  simp only [Array.size_push] at this
  omega

theorem of_reads (h : ∀ c, (x.run c).2 = c) : Quietly (fun _ => True) x :=
  fun c => ⟨by rw [h]; exact .refl c, fun _ => trivial⟩

theorem bind_reads {q : β → Prop} {f : α → CheckM β} (hx : ∀ c, (x.run c).2 = c)
    (hf : ∀ a, Quietly q (f a)) : Quietly q (x >>= f) :=
  (of_reads hx).bind fun a => (hf a).mono fun _ h _ => h

theorem of_run (h : ∀ c, (x.run c).2 = c ∧ ok (x.run c).1) : Quietly ok x :=
  fun c => ⟨by rw [(h c).1]; exact .refl c, fun _ => (h c).2⟩

theorem forIn_list {σ : Type} {xs : List α} {f : α → σ → CheckM (ForInStep σ)} (inv : σ → Prop)
    (hf : ∀ a s, Quietly (fun r => inv s → inv r.value) (f a s)) :
    ∀ init, Quietly (fun r => inv init → inv r) (forIn xs init f) := by
  induction xs with
  | nil => exact fun init => pure id
  | cons a xs ih =>
    intro init
    rw [List.forIn_cons]
    refine (hf a init).bind fun r => ?_
    cases r with
    | done s => exact pure fun h => h
    | yield s => exact (ih s).mono fun _ h hstep hinit => h (hstep hinit)

theorem bind_option {q : β → Prop} {x : CheckM (Option α)} {f : Option α → CheckM β}
    (hx : Quietly (·.isSome) x) (hf : ∀ a, Quietly q (f (some a)))
    (hnone : Quietly (fun _ => True) (f none)) : Quietly q (x >>= f) := by
  refine hx.bind fun r => ?_
  cases r with
  | none => exact hnone.mono fun _ _ h => absurd h (by simp)
  | some a => exact (hf a).mono fun _ h _ => h

end Quietly

open Quietly

theorem checkReference_quietly (name : String) (span : Span) :
    Quietly (·.isSome) (checkReference name span) := by
  unfold checkReference
  refine bind_reads (fun _ => rfl) fun r => ?_
  cases r with
  | usedBeforeDeclaration | unresolved => exact report_bind fun _ => pure trivial
  | _ => exact of_run fun _ => ⟨rfl, rfl⟩

theorem checkConstructor_quietly (name : Ident) (span : Span) :
    Quietly (·.isSome) (checkConstructor name span) := by
  unfold checkConstructor
  refine bind_reads (fun _ => rfl) fun r => ?_
  cases r with
  | struct => exact of_run fun _ => ⟨rfl, rfl⟩
  | _ => exact report_bind fun _ => pure trivial

theorem indexAccess_quietly (array index : Typed.Expr) (span : Span) :
    Quietly (·.isSome) (indexAccess array index span) := by
  unfold indexAccess
  split
  · exact report_bind fun _ => pure trivial
  · split
    · exact pure rfl
    · exact report_bind fun _ => pure trivial

theorem fieldAccess_quietly (stem : Typed.Expr) (name : Ident) (span : Span) :
    Quietly (·.isSome) (fieldAccess stem name span) := by
  unfold fieldAccess
  split
  · split
    next => exact report_bind fun _ => pure trivial
    next p _ =>
      cases p with
      | length | count | nDim => exact pure rfl
      | sum | avg =>
        dsimp only
        split
        · exact pure rfl
        · exact report_bind fun _ => pure trivial
  · refine bind_reads (fun _ => rfl) fun info => ?_
    split
    · exact pure rfl
    · split
      · exact of_run fun _ => ⟨rfl, rfl⟩
      · exact report_bind fun _ => pure trivial
  · exact report_bind fun _ => pure trivial

theorem checkArguments_quietly (params : List Ty) (args : List Typed.Expr) (span : Span) :
    Quietly (·.isSome) (checkArguments params args span) := by
  unfold checkArguments
  split
  · exact report_bind fun _ => pure trivial
  · refine ((forIn_list (fun s => s.1 = true) fun x s => ?_) _).bind fun s => ?_
    · obtain ⟨i, arg, param⟩ := x
      dsimp only
      split
      · exact report_bind fun _ => pure trivial
      · exact pure id
    · exact pure fun h => by simp [h rfl]

theorem callOf_quietly (written : Expr) (callee : Typed.Expr) (args : List Typed.Expr)
    (span : Span) : Quietly (·.isSome) (callOf written callee args span) := by
  unfold callOf
  split
  · refine (checkArguments_quietly _ _ _).bind fun checked => ?_
    split
    · exact pure fun _ => rfl
    · exact pure fun h => by simp_all
  · exact report_bind fun _ => pure trivial

theorem operatorMethod_quietly (decl : Nat) (methodName : String) (op : BinOp) (span : Span) :
    Quietly (·.isSome) (operatorMethod decl methodName op span) := by
  unfold operatorMethod
  refine bind_reads (fun _ => rfl) fun info => ?_
  split
  · exact pure rfl
  · exact report_bind fun _ => pure trivial

theorem elementWiseOverload_quietly (decl : Nat) (methodName : String) (op : BinOp)
    (left right : Typed.Expr) (span : Span) :
    Quietly (·.isSome) (elementWiseOverload decl methodName op left right span) := by
  unfold elementWiseOverload
  refine (operatorMethod_quietly _ _ _ _).bind fun found => ?_
  split
  · refine bind_reads (fun _ => rfl) fun f => ?_
    split
    · dsimp only
      split
      · exact report_bind fun _ => pure trivial
      · split
        · exact report_bind fun _ => pure trivial
        · exact pure fun _ => rfl
    · exact report_bind fun _ => pure trivial
  next hne =>
    exact pure fun h => by
      obtain ⟨⟨info, fn⟩, rfl⟩ := Option.isSome_iff_exists.mp h
      exact absurd rfl (hne info fn)

theorem overload_quietly (decl : Nat) (methodName : String) (op : BinOp) (left right : Typed.Expr)
    (span : Span) : Quietly (·.isSome) (overload decl methodName op left right span) := by
  unfold overload
  refine (operatorMethod_quietly _ _ _ _).bind fun found => ?_
  split
  · refine bind_reads (fun _ => rfl) fun f => ?_
    refine (checkArguments_quietly _ _ _).bind fun checked => ?_
    split
    · exact pure fun _ _ => rfl
    next hne =>
      exact pure fun h _ => by
        obtain ⟨args, rfl⟩ := Option.isSome_iff_exists.mp h
        exact absurd rfl (hne args)
  next hne =>
    exact pure fun h => by
      obtain ⟨⟨info, fn⟩, rfl⟩ := Option.isSome_iff_exists.mp h
      exact absurd rfl (hne info fn)

theorem operands_quietly (test : Typed.Expr → Bool) (message : Typed.Expr → String)
    (left right : Typed.Expr) :
    Quietly (· = true) (forIn [left, right] true fun operand (ok : Bool) =>
      if (!test operand) = true then do
        report operand.span (message operand)
        pure (ForInStep.yield false)
      else pure (ForInStep.yield ok)) := by
  refine (forIn_list (· = true) (fun operand ok => ?_) true).mono fun _ h => h rfl
  split
  · exact report_bind fun _ => pure trivial
  · exact pure id

theorem binaryOf_quietly (op : BinOp) (left right : Typed.Expr) (span : Span) :
    Quietly (·.isSome) (binaryOf op left right span) := by
  unfold binaryOf
  dsimp only
  split
  · exact pure rfl
  split
  · split
    · exact pure rfl
    split
    case' h_1 =>
      split
      exact elementWiseOverload_quietly _ _ _ _ _ _
    all_goals
      split
      case' isTrue =>
        split
        exact pure rfl
      all_goals
        split
        · exact overload_quietly _ _ _ _ _ _
        · exact report_bind fun _ => pure trivial
  split
  · split
    · exact pure rfl
    · exact report_bind fun _ => pure trivial
  split
  · refine (operands_quietly _ _ _ _).bind fun ok => ?_
    split
    · exact pure fun h => by simp_all
    · exact pure fun _ => rfl
  split
  · split
    · exact report_bind fun _ => pure trivial
    · exact pure rfl
  split
  · refine (operands_quietly _ _ _ _).bind fun ok => ?_
    split
    · exact pure fun h => by simp_all
    · exact pure fun _ => rfl
  · exact pure rfl

theorem assignOf_quietly (place : Typed.Place × Ty) (value : Typed.Expr) (span : Span) :
    Quietly (·.isSome) (assignOf place value span) := by
  obtain ⟨target, targetTy⟩ := place
  unfold assignOf
  dsimp only
  split
  · exact report_bind fun _ => pure trivial
  · exact pure rfl

theorem arrayLiteral_quietly (items : List (Option Typed.Expr)) (span : Span) :
    Quietly (fun r => (allChecked items).isSome → r.isSome) (arrayLiteral items span) := by
  unfold arrayLiteral
  split
  next h => exact pure fun h' => by simp [h] at h'
  · refine ((forIn_list (fun s => s.1 = none) (fun item s => ?_) _).bind fun s => ?_)
    · dsimp only
      split
      · exact report_bind fun _ => pure trivial
      · split
        · exact pure fun _ => rfl
        · split
          · exact pure fun _ => rfl
          · exact report_bind fun _ => pure trivial
    · dsimp only
      split
      next h => exact pure fun hs => by simp [hs rfl] at h
      · exact pure fun _ _ => rfl

theorem allChecked_cons_isSome {α : Type} (a : α) (rest : List (Option α)) :
    (allChecked (some a :: rest)).isSome = (allChecked rest).isSome := by
  cases h : allChecked rest <;> simp_all [allChecked, List.mapM_cons]

mutual

theorem checkExpr_quietly : (e : Expr) → Quietly (·.isSome) (checkExpr e)
  | .int .. | .float .. | .str .. => by rw [checkExpr]; exact pure rfl
  | .ref name span => by rw [checkExpr]; exact checkReference_quietly name span
  | .ctor name span => by rw [checkExpr]; exact checkConstructor_quietly name span
  | .array items span => by
    rw [checkExpr]
    exact (checkExprs_quietly items).bind fun checked => arrayLiteral_quietly checked span
  | .paren inner span => by
    rw [checkExpr]
    exact (checkExpr_quietly inner).bind fun r => pure fun h => by simp [h]
  | .field stem name span => by
    rw [checkExpr]
    exact (checkExpr_quietly stem).bind_option (fun s => fieldAccess_quietly s name span)
      (pure trivial)
  | .index array index span => by
    rw [checkExpr]
    exact (checkExpr_quietly array).bind_option
      (fun a => (checkExpr_quietly index).bind_option (fun i => indexAccess_quietly a i span)
        (pure trivial))
      ((checkExpr_quietly index).bind fun _ => pure fun _ => trivial)
  | .call callee args span => by
    rw [checkExpr]
    refine (checkExpr_quietly callee).bind_option (fun c => ?_)
      ((checkExprs_quietly args).bind fun _ => pure fun _ => trivial)
    refine (checkExprs_quietly args).bind fun as => ?_
    split
    · exact (callOf_quietly callee _ _ span).mono fun _ h _ => h
    next hne =>
      exact pure fun has => by
        obtain ⟨as', has'⟩ := Option.isSome_iff_exists.mp has
        exact absurd has' (hne _ _ rfl)
  | .not operand span => by
    rw [checkExpr]
    refine (checkExpr_quietly operand).bind_option (fun o => ?_) (pure trivial)
    dsimp only
    split
    · exact report_bind fun _ => pure trivial
    · exact pure rfl
  | .binary op left right span => by
    rw [checkExpr]
    exact (checkExpr_quietly left).bind_option
      (fun l => (checkExpr_quietly right).bind_option (fun r => binaryOf_quietly op l r span)
        (pure trivial))
      ((checkExpr_quietly right).bind fun _ => pure fun _ => trivial)
  | .assign target value span => by
    rw [checkExpr]
    exact (checkPlace_quietly target).bind_option
      (fun p => (checkExpr_quietly value).bind_option (fun v => assignOf_quietly p v span)
        (pure trivial))
      ((checkExpr_quietly value).bind fun _ => pure fun _ => trivial)

theorem checkExprs_quietly : (es : List Expr) →
    Quietly (fun rs => (allChecked rs).isSome) (checkExprs es)
  | [] => by rw [checkExprs]; exact pure rfl
  | e :: es => by
    rw [checkExprs]
    refine (checkExpr_quietly e).bind_option (fun a => ?_)
      ((checkExprs_quietly es).bind fun _ => pure fun _ => trivial)
    exact (checkExprs_quietly es).bind fun rest => pure fun h => by
      rw [allChecked_cons_isSome]
      exact h

theorem checkPlace_quietly : (e : Expr) → Quietly (·.isSome) (checkPlace e)
  | .paren inner _ => by rw [checkPlace]; exact checkPlace_quietly inner
  | .ref name span => by
    rw [checkPlace]
    refine (checkReference_quietly name span).bind_option (fun r => ?_) (pure trivial)
    split
    · exact pure rfl
    · exact pure rfl
    · exact report_bind fun _ => pure trivial
    next absent => cases absent
  | .field stem name span => by
    rw [checkPlace]
    refine (checkExpr_quietly stem).bind_option (fun s => ?_) (pure trivial)
    refine (fieldAccess_quietly s name span).bind_option (fun r => ?_) (pure trivial)
    split
    · exact pure rfl
    · exact report_bind fun _ => pure trivial
    next absent => cases absent
  | .index array index span => by
    rw [checkPlace]
    refine (checkExpr_quietly array).bind_option (fun a => ?_)
      ((checkExpr_quietly index).bind fun _ => pure fun _ => trivial)
    refine (checkExpr_quietly index).bind_option (fun i => ?_) (pure trivial)
    refine (indexAccess_quietly a i span).bind_option (fun r => ?_) (pure trivial)
    split
    · exact pure rfl
    · exact report_bind fun _ => pure trivial
    next absent => cases absent
  | .int .. | .float .. | .str .. | .ctor .. | .array .. | .call .. | .not .. | .binary ..
  | .assign .. => by
    unfold checkPlace
    exact report_bind fun _ => pure trivial

end

theorem resolveType_quietly : (t : TypeExpr) → Quietly (·.isSome) (resolveType t)
  | .array component _ => by
    rw [resolveType]
    exact (resolveType_quietly component).bind fun r => pure fun h => by simp [h]
  | .named name span => by
    rw [resolveType]
    refine bind_reads (fun _ => rfl) fun r => ?_
    split
    · exact of_run fun _ => ⟨rfl, rfl⟩
    · exact pure rfl
    all_goals exact report_bind fun _ => pure trivial

theorem checkCondition_quietly (cond : Expr) (statement : String) :
    Quietly (·.isSome) (checkCondition cond statement) := by
  unfold checkCondition
  refine (checkExpr_quietly cond).bind_option (fun c => ?_) (pure trivial)
  dsimp only
  split
  · exact report_bind fun _ => pure trivial
  · exact pure rfl

end Sigh.Typing
