import Sigh.Proofs.Checking.Contract
import Sigh.Run.Source

namespace Sigh.Typing

/-- What checking statement `s` from any valid state does. -/
def StmtSpec (s : Stmt) : Prop :=
  s.declStarts.Nodup → ∀ c : Checker, c.Valid →
    Checked s.innerStarts (ownFunctions c s) c ((checkStmt s).run c).2
      (Returning s.alwaysReturns ((checkStmt s).run c).1.toList)

/-- What checking statements `ss` in order from any valid state does. -/
def StmtsSpec (ss : List Stmt) : Prop :=
  (Stmt.listDeclStarts ss).Nodup → ∀ c : Checker, c.Valid →
    Checked (ss.flatMap Stmt.innerStarts) (ss.flatMap (ownFunctions c)) c
      ((checkStmts ss).run c).2 (Returning (Stmt.anyAlwaysReturns ss) ((checkStmts ss).run c).1)

/-- What checking `s` as the body of an `if` or a loop, in a scope of its own, does. -/
def BodySpec (s : Stmt) : Prop :=
  s.declStarts.Nodup → ∀ c : Checker, c.Valid →
    Checked s.declStarts [] c ((checkBody s).run c).2
      (Returning s.alwaysReturns [((checkBody s).run c).1])

/-- What checking the body of `d` as function `fn` from a valid state does. -/
def FunctionSpec (d : FunDecl) (fn : Nat) : Prop :=
  (Stmt.listDeclStarts d.body).Nodup → ∀ c : Checker, c.Valid → fn < c.functions.size →
    Checked (Stmt.listDeclStarts d.body) [fn] c ((checkFunction d fn).run c).2 True

/-- What checking methods `ms` as functions `fns` from a valid state does. -/
def MethodsSpec (ms : List FunDecl) (fns : List Nat) : Prop :=
  (∀ m ∈ ms, (Stmt.listDeclStarts m.body).Nodup) → ∀ c : Checker, c.Valid →
    (∀ fn ∈ fns, fn < c.functions.size) →
    Checked (ms.flatMap (Stmt.listDeclStarts ·.body)) (fns.take ms.length) c
      ((checkMethods ms fns).run c).2 True

/-- What checking the methods of struct `d` from a valid state does. -/
def StructSpec (d : StructDecl) : Prop :=
  d.declStarts.Nodup → ∀ c : Checker, c.Valid →
    Checked (d.methods.flatMap (Stmt.listDeclStarts ·.body)) (methodNumbers c d) c
      ((checkStruct d).run c).2 True

theorem checkVar_declares (name : Ident) (type : TypeExpr) (init : Expr) (span : Span)
    (c : Checker) : c.Declares ((checkVar name type init span).run c).2 ∧
      ∀ t ∈ ((checkVar name type init span).run c).1, t.NoBareReturn := by
  unfold checkVar
  simp only [run_bind]
  have h₁ := (checkExpr_quietly init c).1
  generalize (checkExpr init).run c = r₁ at h₁ ⊢
  obtain ⟨value, c₁⟩ := r₁
  have h₂ := (resolveType_adds type c₁).1
  generalize (resolveType type).run c₁ = r₂ at h₂ ⊢
  obtain ⟨ty, c₂⟩ := r₂
  have h₃ := declareVariable_declares name (ty.getD .null) c₂
  generalize (declareVariable name (ty.getD .null)).run c₂ = r₃ at h₃ ⊢
  obtain ⟨slot, c₃⟩ := r₃
  have h : c.Declares c₃ :=
    (Checker.Declares.of_adds h₁).trans ((Checker.Declares.of_adds h₂).trans h₃)
  split
  · split
    · exact ⟨h.trans (.of_adds ⟨#[_], rfl⟩), fun t ht => absurd ht (Option.not_mem_none t)⟩
    · exact ⟨h, fun t ht => by cases ht; exact .declare⟩
  · exact ⟨h, fun t ht => absurd ht (Option.not_mem_none t)⟩

theorem checkReturn_spec (span : Span) (value : Option Expr) (c : Checker) :
    c.Adds ((checkReturn span value).run c).2 ∧
      (c.Quiet ((checkReturn span value).run c).2 → c.MustValue →
        ∃ e, ((checkReturn span value).run c).1 = some (some e)) := by
  unfold checkReturn
  cases value with
  | none =>
    simp only [run_bind, run_pure, get_run]
    split
    next hcur =>
      refine ⟨.refl c, fun _ hm => ?_⟩
      obtain ⟨fn, f, hfn, -⟩ := hm
      rw [hcur] at hfn
      cases hfn
    next fn hcur =>
      rw [run_bind, functionInfo_run]
      dsimp only
      by_cases hv : (!(c.functions[fn]?.getD default).result.isVoid) = true
      · rw [if_pos hv, run_bind]
        exact report_after (.refl c) _ _
      · rw [if_neg hv]
        refine ⟨.refl c, fun _ hm => ?_⟩
        obtain ⟨fn', f, hfn', hf, hr⟩ := hm
        rw [hcur, Option.some.injEq] at hfn'
        subst hfn'
        simp [hf, hr] at hv
  | some e =>
    simp only [run_bind, run_pure]
    obtain ⟨hadd, hsome⟩ := checkExpr_quietly e c
    generalize (checkExpr e).run c = r₁ at hadd hsome ⊢
    obtain ⟨te, c₁⟩ := r₁
    obtain ⟨ds, rfl⟩ := hadd
    have hadd : c.Adds { c with diagnostics := c.diagnostics ++ ds } := ⟨ds, rfl⟩
    cases te with
    | none =>
      refine ⟨hadd, fun hq _ => absurd (hsome hq) (by simp)⟩
    | some te =>
      simp only [Option.map_some]
      rw [run_bind, get_run]
      dsimp only
      split
      next hcur =>
        split
        · rw [run_bind]
          exact report_after hadd _ _
        · exact ⟨hadd, fun _ _ => ⟨_, rfl⟩⟩
      next fn hcur =>
        rw [run_bind, functionInfo_run]
        dsimp only
        by_cases hv : (c.functions[fn]?.getD default).result.isVoid = true
        · rw [if_pos hv, run_bind]
          exact report_after hadd _ _
        · rw [if_neg hv]
          by_cases ha : (!te.ty.assignable (c.functions[fn]?.getD default).result) = true
          · rw [if_pos ha, run_bind]
            exact report_after hadd _ _
          · rw [if_neg ha]
            exact ⟨hadd, fun _ _ => ⟨_, rfl⟩⟩

theorem checkCondition_checked {keys : List Nat} (cond : Expr) (statement : String)
    (c : Checker) : Checked keys [] c ((checkCondition cond statement).run c).2
      ((checkCondition cond statement).run c).1.isSome :=
  Checked.of_declares (.of_adds (checkCondition_quietly cond statement c).1)
    fun hq _ => (checkCondition_quietly cond statement c).2 hq

theorem checkStmt_block_spec (body : List Stmt) (span : Span) (ih : StmtsSpec body) :
    StmtSpec (.block body span) := by
  intro hnd c hv
  rw [checkStmt.eq_1]
  simp only [run_bind, popScope_run, run_pure]
  have ho := enterScope_opens .block body c
  have hk := enterScope_kinds .block body c
  have hs := ih hnd _ (ho.grows.valid hv)
  generalize ((enterScope .block body).run c).2 = c₁ at ho hk hs ⊢
  generalize (checkStmts body).run c₁ = r at hs ⊢
  obtain ⟨ss, c₂⟩ := r
  exact (Checked.close ho hk ScopeKind.block_ne_function (Stmt.nodup_hoistStarts hnd) hs
    fun s hs i hi => List.mem_flatMap.mpr ⟨s, hs, hi⟩).mono
    (fun k hk => Stmt.mem_listDeclStarts hk) (fun _ hi => absurd hi List.not_mem_nil)
    fun hr => hr.block _ span

theorem checkStmt_var_spec (name : Ident) (type : TypeExpr) (init : Expr) (span : Span) :
    StmtSpec (.var name type init span) := by
  intro _ c _
  rw [checkStmt.eq_2]
  obtain ⟨h, hb⟩ := checkVar_declares name type init span c
  exact Checked.of_declares h fun _ _ => .of_noBare fun t ht => hb t (Option.mem_toList.mp ht)

theorem checkStmt_sizedArray_spec (name : Ident) (element : TypeExpr) (dims : List Nat)
    (span : Span) : StmtSpec (.sizedArray name element dims span) := by
  intro _ c _
  rw [checkStmt.eq_3]
  simp only [run_bind]
  have h₁ := (resolveType_adds element c).1
  generalize (resolveType element).run c = r₁ at h₁ ⊢
  obtain ⟨ty, c₁⟩ := r₁
  cases ty with
  | none => exact Checked.of_declares (.of_adds h₁) fun _ _ => Returning.nil
  | some el =>
    exact Checked.of_declares ((Checker.Declares.of_adds h₁).trans (declareVariable_declares _ _ _))
      fun _ _ => .of_noBare fun t ht => by cases Option.mem_toList.mp ht; exact .sizedArray

theorem checkStmt_ret_spec (value : Option Expr) (span : Span) : StmtSpec (.ret value span) := by
  intro _ c _
  rw [checkStmt.eq_8]
  simp only [run_bind, run_pure]
  obtain ⟨hadd, hval⟩ := checkReturn_spec span value c
  generalize (checkReturn span value).run c = r at hadd hval ⊢
  obtain ⟨v, c₁⟩ := r
  refine Checked.of_declares (.of_adds hadd) fun hq hm => ?_
  obtain ⟨e, rfl⟩ := hval hq hm
  simp only [Option.map_some, Option.toList_some]
  exact ⟨fun t ht => by rw [List.mem_singleton.mp ht]; exact .ret,
    fun _ => ⟨_, List.mem_singleton_self _, .ret⟩⟩

theorem checkStmt_expr_spec (e : Expr) (span : Span) : StmtSpec (.expr e span) := by
  intro _ c _
  rw [checkStmt.eq_9]
  have hexpr : ∀ c₁, c.Adds c₁ → Checked [] [] c
      ((do let te ← checkExpr e; pure (te.map fun e => Typed.Stmt.expr e span) :
        CheckM (Option Typed.Stmt)).run c₁).2
      (Returning (Stmt.expr e span).alwaysReturns
        ((do let te ← checkExpr e; pure (te.map fun e => Typed.Stmt.expr e span) :
          CheckM (Option Typed.Stmt)).run c₁).1.toList) := by
    intro c₁ h₁
    rw [run_bind]
    refine Checked.of_declares (.of_adds (h₁.trans (checkExpr_quietly e c₁).1)) fun _ _ => ?_
    refine .of_noBare fun t ht => ?_
    obtain ⟨te, -, rfl⟩ := Option.map_eq_some_iff.mp (Option.mem_toList.mp ht)
    exact .expr
  split
  · rw [run_bind]
    exact hexpr _ (report_adds _ _ c)
  · exact hexpr c (.refl c)

theorem checkBody_block_spec (body : List Stmt) (span : Span) (ih : StmtsSpec body) :
    BodySpec (.block body span) := by
  intro hnd c hv
  rw [checkBody.eq_1]
  simp only [run_bind, popScope_run, run_pure]
  have ho := enterScope_opens .block body c
  have hk := enterScope_kinds .block body c
  have hs := ih hnd _ (ho.grows.valid hv)
  generalize ((enterScope .block body).run c).2 = c₁ at ho hk hs ⊢
  generalize (checkStmts body).run c₁ = r at hs ⊢
  obtain ⟨ss, c₂⟩ := r
  exact (Checked.close ho hk ScopeKind.block_ne_function (Stmt.nodup_hoistStarts hnd) hs
    fun s hs i hi => List.mem_flatMap.mpr ⟨s, hs, hi⟩).mono
    (fun k hk => Stmt.mem_listDeclStarts hk) (fun _ hi => absurd hi List.not_mem_nil) fun hr => hr.block _ span

theorem checkBody_other_spec (other : Stmt)
    (hne : ∀ body span, other = .block body span → False) (ih : StmtSpec other) :
    BodySpec other := by
  intro hnd c hv
  rw [checkBody.eq_2 other hne]
  simp only [run_bind, popScope_run, run_pure]
  have ho := enterScope_opens .block [other] c
  have hk := enterScope_kinds .block [other] c
  have hs := ih hnd _ (ho.grows.valid hv)
  generalize ((enterScope .block [other]).run c).2 = c₁ at ho hk hs ⊢
  generalize (checkStmt other).run c₁ = r at hs ⊢
  obtain ⟨t, c₂⟩ := r
  have hnd' : (Stmt.listDeclStarts [other]).Nodup := by simpa [Stmt.listDeclStarts] using hnd
  refine (Checked.close ho hk ScopeKind.block_ne_function (Stmt.nodup_hoistStarts hnd') hs fun s hs i hi => ?_).mono
    (fun k hk => (other.declStarts_perm).mem_iff.mpr (by simpa using hk))
    (fun _ hi => absurd hi List.not_mem_nil)
    fun hr => hr.block _ other.span
  rwa [List.mem_singleton.mp hs] at hi

theorem checkStmt_ifElse_spec (cond : Expr) (thenBranch : Stmt) (elseBranch : Option Stmt)
    (span : Span) (iht : BodySpec thenBranch)
    (ihe : match elseBranch with | some e => BodySpec e | none => True) :
    StmtSpec (.ifElse cond thenBranch elseBranch span) := by
  intro hnd c hv
  rw [checkStmt.eq_6]
  have h₁ := @checkCondition_checked (Stmt.ifElse cond thenBranch elseBranch span).innerStarts
    cond "If" c
  cases elseBranch with
  | none =>
    simp only [run_bind, run_pure]
    have hnd' : thenBranch.declStarts.Nodup := by
      simpa [Stmt.declStarts, Stmt.optionDeclStarts] using hnd
    generalize (checkCondition cond "If").run c = r₁ at h₁ ⊢
    obtain ⟨cv, c₁⟩ := r₁
    have h₂ := iht hnd' c₁ (h₁.grows.valid hv)
    generalize (checkBody thenBranch).run c₁ = r₂ at h₂ ⊢
    obtain ⟨t, c₂⟩ := r₂
    refine (h₁.trans (h₂.mono (fun k hk => by simpa [Stmt.innerStarts, Stmt.optionDeclStarts] using hk)
      (fun _ hi => hi) id) fun hc ht => ?_).mono (fun _ hk => hk)
      (fun _ hi => absurd hi List.not_mem_nil) id
    obtain ⟨cv, rfl⟩ := Option.isSome_iff_exists.mp hc
    refine .of_noBare fun x hx => ?_
    rw [Option.map_some, Option.toList_some, List.mem_singleton] at hx
    subst hx
    exact .ifElse (Returning.singleton.mp ht).1 fun x hx => absurd hx (Option.not_mem_none x)
  | some e =>
    simp only [run_bind, run_pure]
    have hnd' : (thenBranch.declStarts ++ e.declStarts).Nodup := by
      simpa [Stmt.declStarts, Stmt.optionDeclStarts] using hnd
    generalize (checkCondition cond "If").run c = r₁ at h₁ ⊢
    obtain ⟨cv, c₁⟩ := r₁
    have h₂ := iht (List.nodup_append.mp hnd').1 c₁ (h₁.grows.valid hv)
    generalize (checkBody thenBranch).run c₁ = r₂ at h₂ ⊢
    obtain ⟨t, c₂⟩ := r₂
    have h₃ := ihe (List.nodup_append.mp hnd').2.1 c₂ (h₂.grows.valid (h₁.grows.valid hv))
    generalize (checkBody e).run c₂ = r₃ at h₃ ⊢
    obtain ⟨te, c₃⟩ := r₃
    have hkeys : ∀ k ∈ thenBranch.declStarts ++ e.declStarts,
        k ∈ (Stmt.ifElse cond thenBranch (some e) span).innerStarts := by
      simp [Stmt.innerStarts, Stmt.optionDeclStarts]
    refine ((h₁.trans (h₂.mono (fun k hk => hkeys k (List.mem_append_left _ hk)) (fun _ hi => hi) id)
      And.intro).trans (h₃.mono (fun k hk => hkeys k (List.mem_append_right _ hk)) (fun _ hi => hi) id)
      fun hct he => ?_).mono (fun _ hk => hk) (fun _ hi => absurd hi List.not_mem_nil) id
    obtain ⟨hc, ht⟩ := hct
    obtain ⟨cv, rfl⟩ := Option.isSome_iff_exists.mp hc
    rw [Returning.singleton] at ht he
    simp only [Option.map_some, Option.toList_some]
    refine Returning.singleton.mpr ⟨.ifElse ht.1 fun x hx => ?_, fun ha => ?_⟩
    · cases hx
      exact he.1
    · simp only [Stmt.alwaysReturns, Bool.and_eq_true] at ha
      exact .ifElse (ht.2 ha.1) (he.2 ha.2)

theorem checkStmt_whileLoop_spec (cond : Expr) (body : Stmt) (span : Span) (ih : BodySpec body) :
    StmtSpec (.whileLoop cond body span) := by
  intro hnd c hv
  rw [checkStmt.eq_7]
  simp only [run_bind, run_pure]
  have h₁ := @checkCondition_checked body.declStarts cond "While" c
  generalize (checkCondition cond "While").run c = r₁ at h₁ ⊢
  obtain ⟨cv, c₁⟩ := r₁
  have h₂ := ih hnd c₁ (h₁.grows.valid hv)
  generalize (checkBody body).run c₁ = r₂ at h₂ ⊢
  obtain ⟨b, c₂⟩ := r₂
  refine (h₁.trans (h₂.mono (fun k hk => hk) (fun _ hi => hi) id) fun hc hb => ?_).mono
    (fun _ hk => hk) (fun _ hi => absurd hi List.not_mem_nil) id
  obtain ⟨cv, rfl⟩ := Option.isSome_iff_exists.mp hc
  refine .of_noBare fun x hx => ?_
  rw [Option.map_some, Option.toList_some, List.mem_singleton] at hx
  subst hx
  exact .whileLoop (Returning.singleton.mp hb).1

theorem checkStmts_nil_spec : StmtsSpec [] := by
  intro _ c _
  rw [checkStmts.eq_1]
  exact Checked.of_declares (.refl c) fun _ _ => Returning.nil

theorem checkStmts_cons_spec (s : Stmt) (rest : List Stmt) (ihs : StmtSpec s)
    (ihr : StmtsSpec rest) : StmtsSpec (s :: rest) := by
  intro hnd c hv
  rw [checkStmts.eq_2]
  simp only [run_bind, run_pure]
  rw [Stmt.listDeclStarts, List.nodup_append] at hnd
  obtain ⟨hnds, hndr, hdisj⟩ := hnd
  have hs := ihs hnds c hv
  generalize (checkStmt s).run c = r₁ at hs ⊢
  obtain ⟨r, c₁⟩ := r₁
  have hr := ihr hndr c₁ (hs.grows.valid hv)
  generalize (checkStmts rest).run c₁ = r₂ at hr ⊢
  obtain ⟨rs, c₂⟩ := r₂
  have hstable : ∀ s' ∈ rest, ∀ i ∈ ownFunctions c s', i ∈ ownFunctions c₁ s' :=
    fun s' hs' => ownFunctions_grows hs.grows fun k hk hks => hdisj k
      ((s.declStarts_perm).mem_iff.mpr (List.mem_append_right _ hks)) k
      (Stmt.mem_listDeclStarts (List.mem_append_left _
        (List.mem_flatMap.mpr ⟨s', hs', hk⟩))) rfl
  refine ((hs.mono (fun k hk => by simp [hk]) (fun _ hi => hi) id).trans
    (hr.mono (fun k hk => by simp_all) (fun _ hi => hi) id) Returning.append).mono
    (fun _ hk => hk) (fun i hi => ?_) id
  rcases List.mem_append.mp (List.flatMap_cons ▸ hi) with hi | hi
  · exact List.mem_append_left _ hi
  · obtain ⟨s', hs', hi⟩ := List.mem_flatMap.mp hi
    exact List.mem_append_right _ (List.mem_flatMap.mpr ⟨s', hs', hstable s' hs' i hi⟩)

theorem checkStmt_fnDecl_spec (d : FunDecl) (span : Span) (ih : ∀ fn, FunctionSpec d fn) :
    StmtSpec (.fnDecl d span) := by
  intro hnd c hv
  have hnd' : (Stmt.listDeclStarts d.body).Nodup := by
    obtain ⟨name, params, result, body, bodySpan⟩ := d
    exact (List.nodup_cons.mp hnd).2
  rw [checkStmt.eq_4]
  simp only [run_bind, get_run]
  split
  next fn hfn =>
    simp only [run_bind, run_pure]
    exact (ih fn hnd' c hv (hv.hoistedFunctions _ (mem_of_lookup_eq_some hfn))).mono
      (fun _ hk => hk) (fun i hi => by simpa [ownFunctions, hfn] using hi) fun _ => Returning.nil
  next hnone =>
    exact (Checked.of_declares (.refl c) fun _ _ => Returning.nil).mono (fun _ hk => hk)
      (fun i hi => by simp [ownFunctions, hnone] at hi) id

theorem checkStmt_structDecl_spec (d : StructDecl) (span : Span) (ih : StructSpec d) :
    StmtSpec (.structDecl d span) := by
  intro hnd c hv
  rw [checkStmt.eq_5]
  simp only [run_bind, run_pure]
  exact (ih hnd c hv).mono (fun _ hk => hk) (fun _ hi => hi) fun _ => Returning.nil

theorem checkMethods_cons_spec (m : FunDecl) (ms : List FunDecl) (fn : Nat) (fns : List Nat)
    (ihm : FunctionSpec m fn) (ihms : MethodsSpec ms fns) : MethodsSpec (m :: ms) (fn :: fns) := by
  intro hnd c hv hfns
  rw [checkMethods.eq_1]
  simp only [run_bind]
  have hm := ihm (hnd m List.mem_cons_self) c hv (hfns fn List.mem_cons_self)
  generalize (checkFunction m fn).run c = r₁ at hm ⊢
  obtain ⟨u, c₁⟩ := r₁
  have hms := ihms (fun m' h => hnd m' (List.mem_cons_of_mem _ h)) c₁ (hm.grows.valid hv)
    fun fn' h => Nat.lt_of_lt_of_le (hfns fn' (List.mem_cons_of_mem _ h)) hm.grows.functions_size
  exact ((hm.mono (fun k hk => by simp [hk]) (fun _ hi => hi) id).trans
    (hms.mono (fun k hk => by simp_all) (fun _ hi => hi) id) fun _ _ => trivial).mono
    (fun _ hk => hk) (fun i hi => by simpa using hi) id

theorem checkMethods_other_spec (ms : List FunDecl) (fns : List Nat)
    (hne : ∀ m ms' fn fns', ms = m :: ms' → fns = fn :: fns' → False) : MethodsSpec ms fns := by
  intro _ c _ _
  rw [checkMethods.eq_2 ms fns hne]
  have hnil : fns.take ms.length = [] := by
    cases ms with
    | nil => simp
    | cons m ms' =>
      cases fns with
      | nil => rfl
      | cons fn fns' => exact (hne m ms' fn fns' rfl rfl).elim
  exact (Checked.of_declares (.refl c) fun _ _ => trivial).mono (fun _ hk => hk)
    (fun i hi => by rw [hnil] at hi; exact absurd hi List.not_mem_nil) id

theorem checkStruct_spec (name : Ident) (fields : List Binding) (methods : List FunDecl)
    (ih : ∀ info : StructInfo, MethodsSpec methods (info.methods.map (·.2))) :
    StructSpec ⟨name, fields, methods⟩ := by
  intro hnd c hv
  rw [checkStruct.eq_1, run_bind, get_run]
  dsimp only
  split
  next hnone =>
    exact (Checked.of_declares (.refl c) fun _ _ => trivial).mono (fun _ hk => hk)
      (fun i hi => by simp [methodNumbers, hnone] at hi) id
  next sid hsid =>
    rw [run_bind, pushScope_run, run_bind, structInfo_run]
    dsimp only
    refine run_bind_of (P := fun r => Checked _ _ c r.2 True) (fun r => Checker.Declares _ r.2)
      (forIn_declares (fun _ c' => ⟨rfl, declare_declares _ _ c'⟩) _) fun _ c₂ h₂ => ?_
    refine run_bind_of (P := fun r => Checked _ _ c r.2 True) (fun r => c₂.Declares r.2)
      (forIn_declares (fun _ c' => ⟨rfl, declare_declares _ _ c'⟩) _) fun _ c₃ h₃ => ?_
    have hd := h₂.trans h₃
    have hv₁ : Checker.Valid { c with scopes := c.scopes.push (.struct sid) } :=
      hv.of_le rfl rfl (Nat.le_refl _)
    have hv₃ : c₃.Valid := hv₁.declares hd
    obtain ⟨scopes, ds, rfl, hk₃⟩ := hd
    have hfns : ∀ fn ∈ (c.structs[sid]?.getD default).methods.map (·.2), fn < c.functions.size := by
      intro fn hfn
      obtain ⟨m, hm, rfl⟩ := List.mem_map.mp hfn
      cases hs : c.structs[sid]? with
      | none => simp [hs, show (default : StructInfo).methods = [] from rfl] at hm
      | some info =>
        rw [hs, Option.getD_some] at hm
        exact hv.methods sid info hs m hm
    have hm := ih _ (FunDecl.nodup_bodies (List.nodup_cons.mp hnd).2) _ hv₃ hfns
    rw [run_bind]
    generalize (checkMethods methods _).run _ = r at hm ⊢
    obtain ⟨_, c₄⟩ := r
    rw [run_bind, popScope_run, run_pure]
    dsimp only
    exact { (Checks.scopes c _).trans ((Checks.of_grows (.of_scopes _ scopes ds) rfl).trans
        (hm.toChecks.trans (Checks.scopes c₄ _))) |>.mono (fun _ hk => hk)
          fun i hi => by simpa [methodNumbers, hsid] using hi with
      kinds := by rw [Checker.kinds_pop, hm.kinds]; exact congrArg List.tail hk₃
      returning := fun _ _ => trivial }

theorem checkFunction_spec (name : Ident) (params : List Binding) (result : Option TypeExpr)
    (body : List Stmt) (bodySpan : Span) (fn : Nat) (ih : StmtsSpec body) :
    FunctionSpec ⟨name, params, result, body, bodySpan⟩ fn := by
  intro hnd c hv hfn
  rw [checkFunction.eq_1, run_bind, pushScope_run, run_bind, functionInfo_run]
  dsimp only
  refine run_bind_of (P := fun r => Checked _ _ c r.2 True) (fun r => Checker.Declares _ r.2)
    (forIn_declares (fun _ c' => ⟨rfl, declareVariable_declares _ _ c'⟩) _)
    fun _ c₂ h₂ => ?_
  rw [run_bind]
  have ho := enterScope_opens .block body c₂
  have hk := enterScope_kinds .block body c₂
  generalize ((enterScope .block body).run c₂).2 = c₃ at ho hk ⊢
  rw [run_bind]
  have hv₂ : c₂.Valid :=
    (show Checker.Valid { c with scopes := c.scopes.push (.function fn) } from
      hv.of_le rfl rfl (Nat.le_refl _)).declares h₂
  have hs := ih hnd c₃ (ho.grows.valid hv₂)
  generalize (checkStmts body).run c₃ = r at hs ⊢
  obtain ⟨ss, c₄⟩ := r
  rw [run_bind, popScope_run, run_bind, popScope_run, run_bind, functionInfo_run]
  dsimp only
  have hclose := Checked.close ho hk ScopeKind.block_ne_function (Stmt.nodup_hoistStarts hnd) hs
    fun s hs i hi => List.mem_flatMap.mpr ⟨s, hs, hi⟩
  have hpre : Checks (Stmt.listDeclStarts body) [] c
      { c₄ with scopes := c₄.scopes.pop.2.pop.2 } :=
    (Checks.scopes c _).trans ((Checks.of_declares h₂).trans
      ((hclose.toChecks.mono (fun k hk => Stmt.mem_listDeclStarts hk) (fun _ hi => hi)).trans
        (Checks.scopes _ _)))
  have hkinds : Checker.kinds { c₄ with scopes := c₄.scopes.pop.2.pop.2 } = c.kinds := by
    rw [show Checker.kinds { c₄ with scopes := c₄.scopes.pop.2.pop.2 } =
      (Checker.kinds { c₄ with scopes := c₄.scopes.pop.2 }).tail from
        Checker.kinds_pop { c₄ with scopes := c₄.scopes.pop.2 },
      hclose.kinds, h₂.kinds]
    rfl
  split
  · rw [run_bind]
    refine { ((hpre.trans (Checks.of_declares (.of_adds (report_adds _ _ _)))).setBody_of
        fun hq => ?_).mono (fun _ hk => hk) fun i hi => by simpa using hi with
      kinds := hkinds
      returning := fun _ _ => trivial }
    have := hpre.grows.diagnostics
    simp only [Checker.Quiet, setBody_run, report_run, Array.size_push] at hq this
    omega
  · rename_i hcond
    refine { (hpre.setBody_of fun hq f hf hr => ?_).mono (fun _ hk => hk)
        fun i hi => by simpa using hi with
      kinds := hkinds
      returning := fun _ _ => trivial }
    have hany : Stmt.anyAlwaysReturns body = true := by
      simp only [hf, Option.getD_some, hr] at hcond
      simpa using hcond
    obtain ⟨g, hg⟩ : ∃ g, c.functions[fn]? = some g := ⟨_, Array.getElem?_eq_getElem hfn⟩
    obtain ⟨g', hg', hgr⟩ := hpre.grows.result hg
    rw [hf, Option.some.injEq] at hg'
    subst hg'
    have hcur : c₂.scopes.currentFunction? = some fn := Scopes.currentFunction?_eq_of_kinds h₂.kinds
    have hm : c₂.MustValue := ⟨fn, g, hcur, by rw [h₂.functions]; exact hg, hgr ▸ hr⟩
    have hq₂ : c₂.Quiet { c₄ with scopes := c₄.scopes.pop.2 } := by
      have h₁ := h₂.size_le
      have h₃ := hclose.grows.diagnostics
      simp only [Checker.Quiet, setBody_run] at hq h₁ h₃ ⊢
      omega
    have hret := hclose.returning hq₂ hm
    exact ⟨hret.2 hany, hret.1⟩

theorem checks_specs :
    (∀ s, StmtSpec s) ∧ (∀ s, BodySpec s) ∧ (∀ ss, StmtsSpec ss) ∧ (∀ d, StructSpec d) ∧
      (∀ ms fns, MethodsSpec ms fns) ∧ (∀ d fn, FunctionSpec d fn) :=
  checkStmt.mutual_induct StmtSpec BodySpec StmtsSpec StructSpec MethodsSpec FunctionSpec
    checkStmt_block_spec checkStmt_var_spec checkStmt_sizedArray_spec checkStmt_fnDecl_spec
    checkStmt_structDecl_spec checkStmt_ifElse_spec checkStmt_whileLoop_spec checkStmt_ret_spec
    (fun e span _ => checkStmt_expr_spec e span) (fun e span _ => checkStmt_expr_spec e span)
    checkBody_block_spec checkBody_other_spec checkStmts_nil_spec checkStmts_cons_spec
    checkStruct_spec checkMethods_cons_spec checkMethods_other_spec checkFunction_spec

end Sigh.Typing

namespace Sigh

open Typing

theorem Program.check_bodies {p : Program} {tp : Typed.Program} (h : p.check = .ok tp)
    (hnd : (Stmt.listDeclStarts p.statements).Nodup) :
    ∀ f ∈ tp.functions, f.result.isVoid = false → f.body.ReturnsValue := by
  unfold Program.check at h
  simp only [run_bind, popScope_run, run_pure] at h
  have ho := enterScope_opens .root p.statements Checker.initial
  have hk := enterScope_kinds .root p.statements Checker.initial
  have hs := checks_specs.2.2.1 p.statements hnd _ (ho.grows.valid Checker.initial_valid)
  generalize ((enterScope .root p.statements).run Checker.initial).2 = c₁ at ho hk hs h
  generalize (checkStmts p.statements).run c₁ = r at hs h
  obtain ⟨ss, c₂⟩ := r
  have hc := Checked.close ho hk (fun _ => by simp) (Stmt.nodup_hoistStarts hnd) hs
    fun s hs i hi => List.mem_flatMap.mpr ⟨s, hs, hi⟩
  split at h
  next hempty =>
    cases h
    intro f hf hr
    have hq : Checker.initial.Quiet { c₂ with scopes := c₂.scopes.pop.2 } := by
      simpa [Checker.Quiet, Checker.initial] using hempty
    have hgood := hc.good hq fun i _ _ hi => by simp [Checker.initial] at hi
    obtain ⟨⟨fi, id⟩, hmem, rfl⟩ := Array.mem_map.mp hf
    obtain ⟨i, hi⟩ := Array.mem_iff_getElem?.mp (Array.fst_mem_of_mem_zipIdx hmem)
    cases hb : fi.body with
    | none =>
      have := (hc.pending i ⟨fi, hi, hb⟩).1
      obtain ⟨_, hi₀, -⟩ := this
      simp [Checker.initial] at hi₀
    | some b =>
      simp only [hb, Option.getD_some]
      exact hgood i fi b hi hb hr
  next => cases h

/-- The analysis of `return`s is sound for runs: in a program that reads and checks, a run of the
body of a function or method with a result that ends without a halt ends with the value of a
`return`. -/
theorem checked_function_returns_value {source : String} {tp : Typed.Program}
    (h : Program.readChecked source = .ok tp) {f : Typed.Function} (hf : f ∈ tp.functions)
    (hr : f.result.isVoid = false) {fuel env : Nat} {m m' : Machine} {flow : Flow}
    (hrun : (Run.execBlock tp fuel f.body env).run.run m = (.ok flow, m')) :
    ∃ v, flow = .ret (some v) := by
  unfold Program.readChecked at h
  obtain ⟨p, hp, hc⟩ := Parse.bind_eq_ok.mp h
  exact Run.execBlock_returnsValue tp
    (Program.check_bodies (mapError_eq_ok.mp hc) (Program.read_declStarts_nodup hp) f hf hr) hrun

set_option maxRecDepth 100000 in
theorem checked_function_returns_value_yes :
    ∃ tp, Program.readChecked "fun yes(): Bool \x7b return true \x7d" = .ok tp ∧
      ∃ f ∈ tp.functions, f.result.isVoid = false ∧
        ∃ flow m', (Run.execBlock tp 8 f.body 0).run.run Machine.empty = (.ok flow, m') ∧
          ∃ v, flow = .ret (some v) := by
  have hcomp : ((Program.readChecked "fun yes(): Bool \x7b return true \x7d").toOption.bind
      fun tp => tp.functions[0]?.bind fun f =>
        match (Run.execBlock tp 8 f.body 0).run.run Machine.empty with
        | (.ok _, _) => some f.result.isVoid
        | _ => none) = some false := by
    decide +kernel
  cases hrc : Program.readChecked "fun yes(): Bool \x7b return true \x7d" with
  | error e => simp [hrc, Except.toOption] at hcomp
  | ok tp =>
    simp only [hrc, Except.toOption, Option.bind_some] at hcomp
    cases hf : tp.functions[0]? with
    | none => simp [hf] at hcomp
    | some f =>
      simp only [hf, Option.bind_some] at hcomp
      split at hcomp
      next flow m' hrun =>
        have hr : f.result.isVoid = false := Option.some.inj hcomp
        have hmem : f ∈ tp.functions := Array.mem_of_getElem? hf
        exact ⟨tp, rfl, f, hmem, hr, flow, m', hrun,
          checked_function_returns_value hrc hmem hr hrun⟩
      next => cases hcomp

end Sigh
