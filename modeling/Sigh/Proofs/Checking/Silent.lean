import Sigh.Proofs.Checking.Reports

namespace Sigh.Typing

/-- A check that changes nothing in the state whenever its result satisfies `ok`. -/
def Silent {α : Type} (ok : α → Prop) (x : CheckM α) : Prop :=
  ∀ c, ok (x.run c).1 → (x.run c).2 = c

namespace Silent

variable {α β : Type} {ok : α → Prop} {x : CheckM α}

theorem pure {a : α} : Silent ok (pure a) := fun _ _ => rfl

theorem of_reads (h : ∀ c, (x.run c).2 = c) : Silent ok x := fun c _ => h c

theorem bind {p : α → Prop} {q : β → Prop} {f : α → CheckM β} (hx : Silent p x)
    (hf : ∀ a, Silent q (f a)) (hpq : ∀ a c, q ((f a).run c).1 → p a) : Silent q (x >>= f) := by
  intro c hq
  rw [run_bind] at hq ⊢
  have hx' := hx c (hpq _ _ hq)
  rw [hx'] at hq ⊢
  exact hf _ c hq

theorem bind_reads {q : β → Prop} {f : α → CheckM β} (hx : ∀ c, (x.run c).2 = c)
    (hf : ∀ a, Silent q (f a)) : Silent q (x >>= f) :=
  (show Silent (fun _ => True) x from of_reads hx).bind hf fun _ _ _ => trivial

theorem report_bind {span : Span} {message : String} {f : Unit → CheckM α}
    (hf : ∀ u c, ¬ ok ((f u).run c).1) : Silent ok (report span message >>= f) := by
  intro c hq
  rw [run_bind] at hq
  exact absurd hq (hf _ _)

theorem bind_option {γ : Type} {x : CheckM (Option α)} {f : Option α → CheckM (Option γ)}
    (hx : Silent (·.isSome) x) (hf : ∀ a, Silent (·.isSome) (f (some a)))
    (hnone : ∀ c, ((f none).run c).1 = none) : Silent (·.isSome) (x >>= f) := by
  refine hx.bind (fun r => ?_) fun r c h => ?_
  · cases r with
    | none => exact fun c h => absurd h (by simp [hnone c])
    | some a => exact hf a
  · cases r with
    | none => simp [hnone c] at h
    | some a => rfl

theorem forIn_list {σ : Type} {xs : List α} {f : α → σ → CheckM (ForInStep σ)} (J P : σ → Prop)
    (hf : ∀ a s c, J s →
      (∀ s', ((f a s).run c).1 = .yield s' → J s') ∧
      (P ((f a s).run c).1.value → P s ∧ ((f a s).run c).2 = c)) :
    ∀ init c, J init → P ((forIn xs init f).run c).1 → P init ∧ ((forIn xs init f).run c).2 = c := by
  induction xs with
  | nil => exact fun init c _ h => ⟨h, rfl⟩
  | cons a xs ih =>
    intro init c hj hp
    rw [List.forIn_cons, run_bind] at hp ⊢
    obtain ⟨hyield, hback⟩ := hf a init c hj
    generalize hr : (f a init).run c = r at hp hyield hback ⊢
    obtain ⟨step, c₁⟩ := r
    cases step with
    | done s => exact hback hp
    | yield s =>
      obtain ⟨hps, hc₁⟩ := ih s c₁ (hyield s rfl) hp
      obtain ⟨hinit, rfl⟩ := hback hps
      exact ⟨hinit, hc₁⟩

theorem forIn {σ : Type} {xs : List α} {f : α → σ → CheckM (ForInStep σ)} (J P : σ → Prop)
    {init : σ} (hinit : J init)
    (hf : ∀ a s c, J s →
      (∀ s', ((f a s).run c).1 = .yield s' → J s') ∧
      (P ((f a s).run c).1.value → P s ∧ ((f a s).run c).2 = c)) :
    Silent P (forIn xs init f) :=
  fun c h => (forIn_list J P hf init c hinit h).2

end Silent

open Silent

theorem checkReference_silent (name : String) (span : Span) :
    Silent (·.isSome) (checkReference name span) := by
  unfold checkReference
  refine bind_reads (fun _ => rfl) fun r => ?_
  cases r with
  | usedBeforeDeclaration | unresolved => exact report_bind fun _ _ => Bool.false_ne_true
  | _ => exact of_reads fun _ => rfl

theorem checkConstructor_silent (name : Ident) (span : Span) :
    Silent (·.isSome) (checkConstructor name span) := by
  unfold checkConstructor
  refine bind_reads (fun _ => rfl) fun r => ?_
  cases r with
  | struct => exact of_reads fun _ => rfl
  | _ => exact report_bind fun _ _ => Bool.false_ne_true

theorem indexAccess_silent (array index : Typed.Expr) (span : Span) :
    Silent (·.isSome) (indexAccess array index span) := by
  unfold indexAccess
  split
  · exact report_bind fun _ _ => Bool.false_ne_true
  · split
    · exact Silent.pure
    · exact report_bind fun _ _ => Bool.false_ne_true

theorem fieldAccess_silent (stem : Typed.Expr) (name : Ident) (span : Span) :
    Silent (·.isSome) (fieldAccess stem name span) := by
  unfold fieldAccess
  split
  · split
    · exact report_bind fun _ _ => Bool.false_ne_true
    · dsimp only
      split
      · exact Silent.pure
      · exact report_bind fun _ _ => Bool.false_ne_true
  · refine bind_reads (fun _ => rfl) fun info => ?_
    split
    · exact Silent.pure
    · split
      · exact of_reads fun _ => rfl
      · exact report_bind fun _ _ => Bool.false_ne_true
  · exact report_bind fun _ _ => Bool.false_ne_true

theorem checkArguments_silent (params : List Ty) (args : List Typed.Expr) (span : Span) :
    Silent (·.isSome) (checkArguments params args span) := by
  unfold checkArguments
  split
  · exact report_bind fun _ _ => Bool.false_ne_true
  · refine (Silent.forIn (fun _ => True) (fun s => s.1 = true) trivial fun x s c _ => ?_).bind
      (fun _ => Silent.pure) fun s c h => ?_
    · obtain ⟨i, arg, param⟩ := x
      dsimp only
      split
      · exact ⟨fun _ _ => trivial, fun h => absurd h Bool.false_ne_true⟩
      · exact ⟨fun _ _ => trivial, fun h => ⟨h, rfl⟩⟩
    · revert h
      cases s.1
      · exact fun h => absurd h Bool.false_ne_true
      · exact fun _ => rfl

theorem callOf_silent (written : Expr) (callee : Typed.Expr) (args : List Typed.Expr)
    (span : Span) : Silent (·.isSome) (callOf written callee args span) := by
  unfold callOf
  split
  · refine (checkArguments_silent _ _ _).bind_option (fun _ => Silent.pure) fun _ => rfl
  · exact report_bind fun _ _ => Bool.false_ne_true

theorem operatorMethod_silent (decl : Nat) (methodName : String) (op : BinOp) (span : Span) :
    Silent (·.isSome) (operatorMethod decl methodName op span) := by
  unfold operatorMethod
  refine bind_reads (fun _ => rfl) fun info => ?_
  split
  · exact Silent.pure
  · exact report_bind fun _ _ => Bool.false_ne_true

theorem elementWiseOverload_silent (decl : Nat) (methodName : String) (op : BinOp)
    (left right : Typed.Expr) (span : Span) :
    Silent (·.isSome) (elementWiseOverload decl methodName op left right span) := by
  unfold elementWiseOverload
  refine (operatorMethod_silent _ _ _ _).bind_option (fun found => ?_) fun _ => rfl
  obtain ⟨info, fn⟩ := found
  refine bind_reads (fun _ => rfl) fun f => ?_
  split
  · dsimp only
    split
    · exact report_bind fun _ _ => Bool.false_ne_true
    · split
      · exact report_bind fun _ _ => Bool.false_ne_true
      · exact Silent.pure
  · exact report_bind fun _ _ => Bool.false_ne_true

theorem overload_silent (decl : Nat) (methodName : String) (op : BinOp) (left right : Typed.Expr)
    (span : Span) : Silent (·.isSome) (overload decl methodName op left right span) := by
  unfold overload
  refine (operatorMethod_silent _ _ _ _).bind_option (fun found => ?_) fun _ => rfl
  obtain ⟨info, fn⟩ := found
  refine bind_reads (fun _ => rfl) fun f => ?_
  exact (checkArguments_silent _ _ _).bind_option (fun _ => Silent.pure) fun _ => rfl

theorem operands_silent (test : Typed.Expr → Bool) (message : Typed.Expr → String)
    (left right : Typed.Expr) :
    Silent (· = true) (forIn [left, right] true fun operand (ok : Bool) =>
      if (!test operand) = true then do
        report operand.span (message operand)
        pure (ForInStep.yield false)
      else pure (ForInStep.yield ok)) := by
  refine Silent.forIn (fun _ => True) (· = true) trivial fun operand ok c _ => ?_
  split
  · exact ⟨fun _ _ => trivial, fun h => absurd h Bool.false_ne_true⟩
  · exact ⟨fun _ _ => trivial, fun h => ⟨h, rfl⟩⟩

theorem binaryOf_silent (op : BinOp) (left right : Typed.Expr) (span : Span) :
    Silent (·.isSome) (binaryOf op left right span) := by
  unfold binaryOf
  dsimp only
  split
  · exact Silent.pure
  split
  · split
    · exact Silent.pure
    split
    case' h_1 =>
      split
      exact elementWiseOverload_silent _ _ _ _ _ _
    all_goals
      split
      case' isTrue =>
        split
        exact Silent.pure
      all_goals
        split
        · exact overload_silent _ _ _ _ _ _
        · exact report_bind fun _ _ => Bool.false_ne_true
  split
  · split
    · exact Silent.pure
    · exact report_bind fun _ _ => Bool.false_ne_true
  split
  · refine (operands_silent _ _ _ _).bind (fun ok => ?_) fun ok c h => ?_
    · split
      · exact Silent.pure
      · exact Silent.pure
    · revert h
      split
      · exact fun h => absurd h Bool.false_ne_true
      · simp_all
  split
  · split
    · exact report_bind fun _ _ => Bool.false_ne_true
    · exact Silent.pure
  split
  · refine (operands_silent _ _ _ _).bind (fun ok => ?_) fun ok c h => ?_
    · split
      · exact Silent.pure
      · exact Silent.pure
    · revert h
      split
      · exact fun h => absurd h Bool.false_ne_true
      · simp_all
  · exact Silent.pure

theorem assignOf_silent (place : Typed.Place × Ty) (value : Typed.Expr) (span : Span) :
    Silent (·.isSome) (assignOf place value span) := by
  obtain ⟨target, targetTy⟩ := place
  unfold assignOf
  dsimp only
  split
  · exact report_bind fun _ _ => Bool.false_ne_true
  · exact Silent.pure

theorem arrayLiteral_silent (items : List (Option Typed.Expr)) (span : Span) :
    Silent (·.isSome) (arrayLiteral items span) := by
  unfold arrayLiteral
  split
  · exact Silent.pure
  · refine (Silent.forIn (fun s => s.1 = none) (fun s => s.1 = none ∨ ∃ e, s.1 = some (some e)) rfl
      fun item s c hs => ?_).bind (fun s => ?_) fun s c h => ?_
    · dsimp only
      split
      · exact ⟨fun _ h => (by cases h), fun h => (by rcases h with h | ⟨e, h⟩ <;> cases h)⟩
      · split
        · exact ⟨fun _ h => (by cases h; rfl), fun _ => ⟨.inl hs, rfl⟩⟩
        · split
          · exact ⟨fun _ h => (by cases h; rfl), fun _ => ⟨.inl hs, rfl⟩⟩
          · exact ⟨fun _ h => (by cases h), fun h => (by rcases h with h | ⟨e, h⟩ <;> cases h)⟩
    · dsimp only
      split
      · exact Silent.pure
      · exact Silent.pure
    · revert h
      dsimp only
      split
      · rename_i r hr
        exact fun h => .inr ⟨_, by rw [hr, Option.some.injEq]; exact (Option.isSome_iff_exists.mp h).choose_spec⟩
      · exact fun _ => .inl ‹_›

theorem allChecked_none_cons {α : Type} (rest : List (Option α)) :
    allChecked (none :: rest) = none := rfl

theorem arrayLiteral_of_allChecked {items : List (Option Typed.Expr)} {span : Span} {c : Checker}
    (h : ((arrayLiteral items span).run c).1.isSome) : (allChecked items).isSome := by
  unfold arrayLiteral at h
  split at h
  · exact absurd h Bool.false_ne_true
  · simp_all

mutual

theorem checkExpr_silent : (e : Expr) → Silent (·.isSome) (checkExpr e)
  | .int .. | .float .. | .str .. => by rw [checkExpr]; exact Silent.pure
  | .ref name span => by rw [checkExpr]; exact checkReference_silent name span
  | .ctor name span => by rw [checkExpr]; exact checkConstructor_silent name span
  | .array items span => by
    rw [checkExpr]
    exact (checkExprs_silent items).bind (fun checked => arrayLiteral_silent checked span)
      fun _ _ h => arrayLiteral_of_allChecked h
  | .paren inner span => by
    rw [checkExpr]
    exact (checkExpr_silent inner).bind_option (fun _ => Silent.pure) fun _ => rfl
  | .field stem name span => by
    rw [checkExpr]
    exact (checkExpr_silent stem).bind_option (fun s => fieldAccess_silent s name span) fun _ => rfl
  | .index array index span => by
    rw [checkExpr]
    refine (checkExpr_silent array).bind_option (fun a => ?_) fun c => by rw [run_bind]; rfl
    exact (checkExpr_silent index).bind_option (fun i => indexAccess_silent a i span) fun _ => rfl
  | .call callee args span => by
    rw [checkExpr]
    refine (checkExpr_silent callee).bind_option (fun c => ?_) fun c => by rw [run_bind]; rfl
    refine (checkExprs_silent args).bind (fun as => ?_) fun as c' h => ?_
    · split
      · exact callOf_silent callee _ _ span
      · exact Silent.pure
    · revert h
      split
      · simp_all
      · exact fun h => absurd h Bool.false_ne_true
  | .not operand span => by
    rw [checkExpr]
    refine (checkExpr_silent operand).bind_option (fun o => ?_) fun _ => rfl
    dsimp only
    split
    · exact report_bind fun _ _ => Bool.false_ne_true
    · exact Silent.pure
  | .binary op left right span => by
    rw [checkExpr]
    refine (checkExpr_silent left).bind_option (fun l => ?_) fun c => by rw [run_bind]; rfl
    exact (checkExpr_silent right).bind_option (fun r => binaryOf_silent op l r span) fun _ => rfl
  | .assign target value span => by
    rw [checkExpr]
    refine (checkPlace_silent target).bind_option (fun p => ?_) fun c => by rw [run_bind]; rfl
    exact (checkExpr_silent value).bind_option (fun v => assignOf_silent p v span) fun _ => rfl

theorem checkExprs_silent : (es : List Expr) →
    Silent (fun rs => (allChecked rs).isSome) (checkExprs es)
  | [] => by rw [checkExprs]; exact Silent.pure
  | e :: es => by
    rw [checkExprs]
    refine (checkExpr_silent e).bind (fun first => ?_) fun first c h => ?_
    · exact (checkExprs_silent es).bind (fun _ => Silent.pure) fun rest _ h => by
        cases first with
        | none => exact absurd h Bool.false_ne_true
        | some a => rwa [run_pure, allChecked_cons_isSome] at h
    · rw [run_bind] at h
      cases first with
      | none => exact absurd h Bool.false_ne_true
      | some a => rfl

theorem checkPlace_silent : (e : Expr) → Silent (·.isSome) (checkPlace e)
  | .paren inner _ => by rw [checkPlace]; exact checkPlace_silent inner
  | .ref name span => by
    rw [checkPlace]
    refine (checkReference_silent name span).bind_option (fun r => ?_) fun _ => rfl
    split
    · exact Silent.pure
    · exact Silent.pure
    · exact report_bind fun _ _ => Bool.false_ne_true
    next absent => cases absent
  | .field stem name span => by
    rw [checkPlace]
    refine (checkExpr_silent stem).bind_option (fun s => ?_) fun _ => rfl
    refine (fieldAccess_silent s name span).bind_option (fun r => ?_) fun _ => rfl
    split
    · exact Silent.pure
    · exact report_bind fun _ _ => Bool.false_ne_true
    next absent => cases absent
  | .index array index span => by
    rw [checkPlace]
    refine (checkExpr_silent array).bind_option (fun a => ?_) fun c => by rw [run_bind]; rfl
    refine (checkExpr_silent index).bind_option (fun i => ?_) fun _ => rfl
    refine (indexAccess_silent a i span).bind_option (fun r => ?_) fun _ => rfl
    split
    · exact Silent.pure
    · exact report_bind fun _ _ => Bool.false_ne_true
    next absent => cases absent
  | .int .. | .float .. | .str .. | .ctor .. | .array .. | .call .. | .not .. | .binary ..
  | .assign .. => by
    unfold checkPlace
    exact report_bind fun _ _ => Bool.false_ne_true

end

theorem Quietly.adds_iff {α : Type} {x : CheckM (Option α)} (hq : Quietly (·.isSome) x)
    (hs : Silent (·.isSome) x) (c : Checker) :
    ∃ ds, (x.run c).2 = { c with diagnostics := c.diagnostics ++ ds } ∧
      ((x.run c).1.isSome ↔ ds = #[]) := by
  obtain ⟨⟨ds, hds⟩, hquiet⟩ := hq c
  refine ⟨ds, hds, fun h => ?_, fun h => hquiet (by simp [hds, h])⟩
  have hsize := congrArg (·.diagnostics.size) (hds.symm.trans (hs c h))
  simp only [Array.size_append] at hsize
  exact Array.eq_empty_of_size_eq_zero (by omega)

theorem checkExpr_adds_iff (e : Expr) (c : Checker) :
    ∃ ds, ((checkExpr e).run c).2 = { c with diagnostics := c.diagnostics ++ ds } ∧
      (((checkExpr e).run c).1.isSome ↔ ds = #[]) :=
  (checkExpr_quietly e).adds_iff (checkExpr_silent e) c

theorem checkPlace_adds_iff (e : Expr) (c : Checker) :
    ∃ ds, ((checkPlace e).run c).2 = { c with diagnostics := c.diagnostics ++ ds } ∧
      (((checkPlace e).run c).1.isSome ↔ ds = #[]) :=
  (checkPlace_quietly e).adds_iff (checkPlace_silent e) c

end Sigh.Typing
