import Sigh.Proofs.Checking.Kept
import Sigh.Proofs.Declarations

namespace Sigh.Typed

theorem Expr.mem_listLocals {u : Nat × Nat} {es : List Expr} :
    u ∈ Expr.listLocals es ↔ ∃ e ∈ es, u ∈ e.locals := by
  induction es with
  | nil => simp [Expr.listLocals]
  | cons e es ih => simp [Expr.listLocals, ih]

@[simp] theorem Expr.coerceTo_locals (e : Expr) (t : Ty) : (e.coerceTo t).locals = e.locals := by
  unfold Expr.coerceTo
  split <;> rfl

theorem Expr.listLocals_map_coerceTo (es : List Expr) (t : Ty) :
    Expr.listLocals (es.map (·.coerceTo t)) = Expr.listLocals es := by
  induction es with
  | nil => rfl
  | cons e es ih => simp [Expr.listLocals, ih]

end Sigh.Typed

namespace Sigh.Typing

/-- The scope `hops` up holds a variable in slot `slot`. -/
def Scopes.HasVariable (ss : Scopes) (hops slot : Nat) : Prop :=
  ∃ sc ∈ ss[hops]?, ∃ (name : String) (ty : Ty), (name, Declaration.variable slot ty) ∈ sc.names

/-- Every variable of `uses` is a variable of the scopes. -/
def Scopes.Holds (ss : Scopes) (uses : List (Nat × Nat)) : Prop :=
  ∀ u ∈ uses, ss.HasVariable u.1 u.2

theorem Scopes.Holds.of_subset {ss : Scopes} {us vs : List (Nat × Nat)} (h : ss.Holds vs)
    (hsub : us ⊆ vs) : ss.Holds us :=
  fun u hu => h u (hsub hu)

theorem Scopes.Holds.append {ss : Scopes} {us vs : List (Nat × Nat)} (hu : ss.Holds us)
    (hv : ss.Holds vs) : ss.Holds (us ++ vs) := by
  intro u hmem
  rcases List.mem_append.mp hmem with h | h
  exacts [hu u h, hv u h]

theorem Scope.mem_names_of_lookup {names : List (String × Declaration)} {name : String}
    {d : Declaration} (h : names.lookup name = some d) : (name, d) ∈ names := by
  induction names with
  | nil => cases h
  | cons e names ih =>
    obtain ⟨n, d'⟩ := e
    rw [List.lookup_cons] at h
    split at h
    · cases h
      rename_i hn
      rw [beq_iff_eq.mp hn]
      exact List.mem_cons_self
    · exact List.mem_cons_of_mem _ (ih h)

theorem Scopes.find?_local {name : String} :
    ∀ {ss : Scopes} {hops h slot : Nat} {ty : Ty},
      Scopes.find? name hops ss = some (.local h slot ty) →
        hops ≤ h ∧ ss.HasVariable (h - hops) slot
  | [], _, _, _, _, hf => by cases hf
  | sc :: rest, hops, h, slot, ty, hf => by
    unfold Scopes.find? at hf
    split at hf
    next d hd =>
      cases d with
      | «variable» s t =>
        simp only [Declaration.resolve, Option.some.injEq, Resolution.local.injEq] at hf
        obtain ⟨rfl, rfl, rfl⟩ := hf
        exact ⟨Nat.le_refl _, sc, by simp, name, t, Scope.mem_names_of_lookup hd⟩
      | _ => simp [Declaration.resolve] at hf
    next =>
      obtain ⟨hle, sc', hsc', hvar⟩ := Scopes.find?_local hf
      refine ⟨by omega, sc', ?_, hvar⟩
      rw [show h - hops = h - (hops + 1) + 1 by omega]
      simpa using hsc'

theorem Scopes.lookup_local {ss : Scopes} {name : String} {h slot : Nat} {ty : Ty}
    (hl : ss.lookup name = .local h slot ty) : ss.HasVariable h slot := by
  unfold Scopes.lookup at hl
  split at hl
  next r hr =>
    subst hl
    simpa using (Scopes.find?_local hr).2
  next =>
    split at hl
    · cases hl
    · split at hl <;> cases hl

/-- A check that only adds diagnostics, and whose result satisfies `ok`, relative to the scopes it
starts from, when it adds none. -/
def QuietlyIn {α : Type} (ok : Scopes → α → Prop) (x : CheckM α) : Prop :=
  ∀ c, c.Adds (x.run c).2 ∧
    ((x.run c).2.diagnostics.size = c.diagnostics.size → ok c.scopes (x.run c).1)

namespace QuietlyIn

variable {α β : Type} {ok : Scopes → α → Prop} {x : CheckM α}

theorem mono {ok' : Scopes → α → Prop} (hx : QuietlyIn ok x) (h : ∀ ss a, ok ss a → ok' ss a) :
    QuietlyIn ok' x :=
  fun c => ⟨(hx c).1, fun hq => h _ _ ((hx c).2 hq)⟩

theorem of_quietly {p : α → Prop} (hx : Quietly p x) (h : ∀ ss a, p a → ok ss a) :
    QuietlyIn ok x :=
  fun c => ⟨(hx c).1, fun hq => h _ _ ((hx c).2 hq)⟩

theorem pure {a : α} (h : ∀ ss, ok ss a) : QuietlyIn ok (pure a) := fun c => ⟨.refl c, fun _ => h _⟩

theorem report_bind {span : Span} {message : String} {f : Unit → CheckM α}
    (hf : ∀ u, Quietly (fun _ => True) (f u)) : QuietlyIn ok (report span message >>= f) :=
  of_quietly (Quietly.report_bind hf : Quietly (fun _ => False) _) fun _ _ h => h.elim

theorem bind {p : Scopes → α → Prop} {q : Scopes → β → Prop} {f : α → CheckM β}
    (hx : QuietlyIn p x) (hf : ∀ a, QuietlyIn (fun ss b => p ss a → q ss b) (f a)) :
    QuietlyIn q (x >>= f) := by
  intro c
  obtain ⟨hxa, hxq⟩ := hx c
  obtain ⟨hfa, hfq⟩ := hf (x.run c).1 (x.run c).2
  refine ⟨hxa.trans hfa, fun hq => ?_⟩
  have h₁ := hxa.size_le
  have h₂ := hfa.size_le
  have hsc : (x.run c).2.scopes = c.scopes := by
    obtain ⟨ds, hds⟩ := hxa
    rw [hds]
  rw [run_bind] at hq ⊢
  have hp := hxq (by omega)
  rw [← hsc] at hp
  have hfq' := hfq (by omega) hp
  rwa [hsc] at hfq'

theorem bind_option {q : Scopes → β → Prop} {x : CheckM (Option α)} {f : Option α → CheckM β}
    {p : Scopes → α → Prop} (hx : QuietlyIn (fun ss r => ∀ a ∈ r, p ss a) x)
    (hs : Quietly (·.isSome) x) (hf : ∀ a, QuietlyIn (fun ss b => p ss a → q ss b) (f (some a)))
    (hnone : Quietly (fun _ => True) (f none)) : QuietlyIn q (x >>= f) := by
  have hboth : QuietlyIn (fun ss r => r.isSome ∧ ∀ a ∈ r, p ss a) x :=
    fun c => ⟨(hx c).1, fun hq => ⟨(hs c).2 hq, (hx c).2 hq⟩⟩
  refine hboth.bind fun r => ?_
  cases r with
  | none => exact of_quietly hnone fun _ _ _ h => absurd h.1 (by simp)
  | some a => exact (hf a).mono fun _ _ h hr => h (hr.2 a rfl)

end QuietlyIn

theorem lookup_run (name : String) (c : Checker) :
    (lookup name).run c = (c.scopes.lookup name, c) := rfl

theorem lookup_in (name : String) : QuietlyIn (fun ss r => r = ss.lookup name) (lookup name) :=
  fun c => ⟨by rw [lookup_run]; exact .refl c, fun _ => by rw [lookup_run]⟩

theorem Quietly.forIn_list_mem {α σ : Type} {xs : List α} {f : α → σ → CheckM (ForInStep σ)}
    (inv : σ → Prop) (hf : ∀ a ∈ xs, ∀ s, Quietly (fun r => inv s → inv r.value) (f a s)) :
    ∀ init, Quietly (fun r => inv init → inv r) (forIn xs init f) := by
  induction xs with
  | nil => exact fun init => Quietly.pure id
  | cons a xs ih =>
    intro init
    rw [List.forIn_cons]
    refine (hf a List.mem_cons_self init).bind fun r => ?_
    cases r with
    | done s => exact Quietly.pure fun h => h
    | yield s =>
      exact (ih (fun b hb => hf b (List.mem_cons_of_mem a hb)) s).mono
        fun _ h hstep hinit => h (hstep hinit)

theorem append_subset_append_left {us vs ws : List (Nat × Nat)} (h : vs ⊆ ws) :
    us ++ vs ⊆ us ++ ws :=
  List.append_subset.mpr ⟨List.subset_append_left us ws, List.subset_append_of_subset_right us h⟩

theorem locals_some {S : List (Nat × Nat)} {t : Typed.Expr} (h : t.locals ⊆ S) :
    ∀ t' ∈ some t, t'.locals ⊆ S := by
  intro t' ht
  rw [Option.mem_def, Option.some.injEq] at ht
  subst ht
  exact h

theorem locals_none {S : List (Nat × Nat)} : ∀ t' ∈ (none : Option Typed.Expr), t'.locals ⊆ S :=
  fun t ht => absurd ht (Option.not_mem_none t)

open Quietly

theorem indexAccess_locals (array index : Typed.Expr) (span : Span) :
    Quietly (fun r => ∀ t ∈ r, t.locals ⊆ array.locals ++ index.locals)
      (indexAccess array index span) := by
  unfold indexAccess
  split
  · exact report_bind fun _ => Quietly.pure trivial
  · split
    · exact Quietly.pure (locals_some (List.Subset.refl _))
    · exact report_bind fun _ => Quietly.pure trivial

theorem fieldAccess_locals (stem : Typed.Expr) (name : Ident) (span : Span) :
    Quietly (fun r => ∀ t ∈ r, t.locals ⊆ stem.locals) (fieldAccess stem name span) := by
  unfold fieldAccess
  split
  · split
    next => exact report_bind fun _ => Quietly.pure trivial
    next p _ =>
      cases p with
      | length | count | nDim => exact Quietly.pure (locals_some (List.Subset.refl _))
      | sum | avg =>
        dsimp only
        split
        · exact Quietly.pure (locals_some (List.Subset.refl _))
        · exact report_bind fun _ => Quietly.pure trivial
  · refine bind_reads (fun _ => rfl) fun info => ?_
    split
    · exact Quietly.pure (locals_some (List.Subset.refl _))
    · split
      · exact of_run fun _ => ⟨rfl, locals_some (List.Subset.refl _)⟩
      · exact report_bind fun _ => Quietly.pure trivial
  · exact report_bind fun _ => Quietly.pure trivial

theorem checkArguments_locals (params : List Ty) (args : List Typed.Expr) (span : Span) :
    Quietly (fun r => ∀ xs ∈ r, Typed.Expr.listLocals xs ⊆ Typed.Expr.listLocals args)
      (checkArguments params args span) := by
  unfold checkArguments
  split
  · exact report_bind fun _ => Quietly.pure trivial
  · refine ((forIn_list_mem (fun s => ∀ x ∈ s.2, x.locals ⊆ Typed.Expr.listLocals args)
      fun a ha s => ?_) _).bind fun s => ?_
    · obtain ⟨i, arg, param⟩ := a
      have harg : arg ∈ args := (List.of_mem_zip (List.of_mem_zip ha).2).1
      dsimp only
      split
      · exact report_bind fun _ => Quietly.pure trivial
      · refine Quietly.pure fun hs x hx => ?_
        rcases Array.mem_push.mp hx with hx | rfl
        · exact hs x hx
        · rw [Typed.Expr.coerceTo_locals]
          exact fun u hu => Typed.Expr.mem_listLocals.mpr ⟨arg, harg, hu⟩
    · refine Quietly.pure fun hs xs hxs u hu => ?_
      have hinit : ∀ x ∈ (#[] : Array Typed.Expr), x.locals ⊆ Typed.Expr.listLocals args := by
        simp
      split at hxs
      · rw [Option.mem_def, Option.some.injEq] at hxs
        subst hxs
        obtain ⟨x, hx, hux⟩ := Typed.Expr.mem_listLocals.mp hu
        exact hs hinit x (Array.mem_toList_iff.mp hx) hux
      · cases hxs

theorem callOf_locals (written : Expr) (callee : Typed.Expr) (args : List Typed.Expr)
    (span : Span) :
    Quietly (fun r => ∀ t ∈ r, t.locals ⊆ callee.locals ++ Typed.Expr.listLocals args)
      (callOf written callee args span) := by
  unfold callOf
  split
  · refine (checkArguments_locals _ _ _).bind fun checked => ?_
    split
    next args' =>
      exact Quietly.pure fun h => locals_some (append_subset_append_left (h args' rfl))
    · exact Quietly.pure fun _ => locals_none
  · exact report_bind fun _ => Quietly.pure trivial

theorem elementWiseOverload_locals (decl : Nat) (methodName : String) (op : BinOp)
    (left right : Typed.Expr) (span : Span) :
    Quietly (fun r => ∀ t ∈ r, t.locals ⊆ left.locals ++ right.locals)
      (elementWiseOverload decl methodName op left right span) := by
  unfold elementWiseOverload
  refine (operatorMethod_quietly _ _ _ _).bind fun found => ?_
  split
  · refine bind_reads (fun _ => rfl) fun f => ?_
    split
    · dsimp only
      split
      · exact report_bind fun _ => Quietly.pure trivial
      · split
        · exact report_bind fun _ => Quietly.pure trivial
        · exact Quietly.pure fun _ => locals_some (List.Subset.refl _)
    · exact report_bind fun _ => Quietly.pure trivial
  · exact Quietly.pure fun _ => locals_none

theorem overload_locals (decl : Nat) (methodName : String) (op : BinOp) (left right : Typed.Expr)
    (span : Span) :
    Quietly (fun r => ∀ t ∈ r, t.locals ⊆ left.locals ++ right.locals)
      (overload decl methodName op left right span) := by
  unfold overload
  refine (operatorMethod_quietly _ _ _ _).bind fun found => ?_
  split
  · refine bind_reads (fun _ => rfl) fun f => ?_
    refine (checkArguments_locals _ _ _).bind fun checked => ?_
    split
    next args =>
      refine Quietly.pure fun h _ => locals_some ?_
      have hargs := h args rfl
      simp only [Typed.Expr.listLocals, List.append_nil] at hargs
      exact append_subset_append_left hargs
    · exact Quietly.pure fun _ _ => locals_none
  · exact Quietly.pure fun _ => locals_none

theorem binaryOf_locals (op : BinOp) (left right : Typed.Expr) (span : Span) :
    Quietly (fun r => ∀ t ∈ r, t.locals ⊆ left.locals ++ right.locals)
      (binaryOf op left right span) := by
  have hnode : ∀ (k : Typed.ExprKind) (ty : Ty), k.locals = left.locals ++ right.locals →
      ∀ t ∈ some (⟨k, ty, span⟩ : Typed.Expr), t.locals ⊆ left.locals ++ right.locals :=
    fun k ty hk => locals_some (by rw [Typed.Expr.locals_eq, hk]; exact List.Subset.refl _)
  unfold binaryOf
  dsimp only
  split
  · exact Quietly.pure (hnode _ _ rfl)
  split
  · split
    · exact Quietly.pure (hnode _ _ rfl)
    split
    case' h_1 =>
      split
      exact elementWiseOverload_locals _ _ _ _ _ _
    all_goals
      split
      case' isTrue =>
        split
        exact Quietly.pure (hnode _ _ rfl)
      all_goals
        split
        · exact overload_locals _ _ _ _ _ _
        · exact report_bind fun _ => Quietly.pure trivial
  split
  · split
    · exact Quietly.pure (hnode _ _ rfl)
    · exact report_bind fun _ => Quietly.pure trivial
  split
  · refine (operands_quietly _ _ _ _).bind fun ok => ?_
    split
    · exact Quietly.pure fun _ => locals_none
    · exact Quietly.pure fun _ => hnode _ _ rfl
  split
  · split
    · exact report_bind fun _ => Quietly.pure trivial
    · exact Quietly.pure (hnode _ _ rfl)
  split
  · refine (operands_quietly _ _ _ _).bind fun ok => ?_
    split
    · exact Quietly.pure fun _ => locals_none
    · exact Quietly.pure fun _ => hnode _ _ rfl
  · exact Quietly.pure (hnode _ _ rfl)

theorem assignOf_locals (place : Typed.Place × Ty) (value : Typed.Expr) (span : Span) :
    Quietly (fun r => ∀ t ∈ r, t.locals ⊆ place.1.locals ++ value.locals)
      (assignOf place value span) := by
  obtain ⟨target, targetTy⟩ := place
  unfold assignOf
  dsimp only
  split
  · exact report_bind fun _ => Quietly.pure trivial
  · refine Quietly.pure (locals_some ?_)
    show target.locals ++ (value.coerceTo targetTy).locals ⊆ _
    rw [Typed.Expr.coerceTo_locals]
    exact List.Subset.refl _

theorem allChecked_mem {α : Type} {rs : List (Option α)} {xs : List α} (h : allChecked rs = some xs)
    {x : α} (hx : x ∈ xs) : some x ∈ rs := by
  induction rs generalizing xs with
  | nil =>
    simp only [allChecked, List.mapM_nil, Option.pure_def, Option.some.injEq] at h
    subst h
    cases hx
  | cons r rs ih =>
    simp only [allChecked, List.mapM_cons, id, Option.pure_def, Option.bind_eq_bind] at h
    cases r with
    | none => simp at h
    | some a =>
      cases hrest : rs.mapM id with
      | none => simp [hrest] at h
      | some ys =>
        simp only [hrest, Option.bind_some, Option.some.injEq] at h
        subst h
        rcases List.mem_cons.mp hx with rfl | hx
        · exact List.mem_cons_self
        · exact List.mem_cons_of_mem _ (ih hrest hx)

theorem arrayLiteral_locals (items : List (Option Typed.Expr)) (span : Span) :
    Quietly (fun r => ∀ t ∈ r, ∃ xs, allChecked items = some xs ∧
      t.locals ⊆ Typed.Expr.listLocals xs) (arrayLiteral items span) := by
  unfold arrayLiteral
  split
  · exact Quietly.pure fun t ht => absurd ht (Option.not_mem_none t)
  next xs hxs =>
    refine ((forIn_list (fun s => s.1 = none) (fun item s => ?_) _).bind fun s => ?_)
    · dsimp only
      split
      · exact report_bind fun _ => Quietly.pure trivial
      · split
        · exact Quietly.pure fun _ => rfl
        · split
          · exact Quietly.pure fun _ => rfl
          · exact report_bind fun _ => Quietly.pure trivial
    · dsimp only
      split
      next h => exact Quietly.pure fun hs => by simp [hs rfl] at h
      · refine Quietly.pure fun _ t ht => ?_
        rw [Option.mem_def, Option.some.injEq] at ht
        subst ht
        refine ⟨xs, hxs, ?_⟩
        show Typed.Expr.listLocals (xs.map _) ⊆ _
        rw [Typed.Expr.listLocals_map_coerceTo]
        exact List.Subset.refl _

theorem Scopes.Holds.of_leaf {ss : Scopes} {r : Option Typed.Expr}
    (h : ∀ t ∈ r, t.locals ⊆ []) : ∀ t ∈ r, ss.Holds t.locals :=
  fun t ht _ hu => absurd (h t ht hu) List.not_mem_nil

theorem checkReference_locals (name : String) (span : Span) :
    QuietlyIn (fun ss r => ∀ t ∈ r, ss.Holds t.locals) (checkReference name span) := by
  unfold checkReference
  refine (lookup_in name).bind fun r => ?_
  cases r with
  | «local» hops slot ty =>
    refine QuietlyIn.pure fun ss hr t ht u hu => ?_
    rw [Option.mem_def, Option.some.injEq] at ht
    subst ht
    rw [List.mem_singleton.mp hu]
    exact Scopes.lookup_local hr.symm
  | usedBeforeDeclaration | unresolved => exact QuietlyIn.report_bind fun _ => Quietly.pure trivial
  | builtin b =>
    cases b <;> exact QuietlyIn.of_quietly (Quietly.pure (locals_some (List.Subset.refl _)))
      fun _ _ h _ => Scopes.Holds.of_leaf h
  | _ =>
    refine QuietlyIn.of_quietly (p := fun r => ∀ t ∈ r, t.locals ⊆ []) ?_
      fun _ _ h _ => Scopes.Holds.of_leaf h
    first
    | exact Quietly.pure (locals_some (List.Subset.refl _))
    | exact of_run fun _ => ⟨rfl, locals_some (List.Subset.refl _)⟩

theorem checkConstructor_locals (name : Ident) (span : Span) :
    Quietly (fun r => ∀ t ∈ r, t.locals ⊆ []) (checkConstructor name span) := by
  unfold checkConstructor
  refine bind_reads (fun _ => rfl) fun r => ?_
  cases r with
  | struct => exact of_run fun _ => ⟨rfl, locals_some (List.Subset.refl _)⟩
  | _ => exact report_bind fun _ => Quietly.pure trivial

theorem locals_of_subset {ss : Scopes} {us : List (Nat × Nat)} {r : Option Typed.Expr}
    (h : ∀ t ∈ r, t.locals ⊆ us) (hus : ss.Holds us) : ∀ t ∈ r, ss.Holds t.locals :=
  fun t ht => hus.of_subset (h t ht)

mutual

theorem checkExpr_locals : (e : Expr) →
    QuietlyIn (fun ss r => ∀ t ∈ r, ss.Holds t.locals) (checkExpr e)
  | .int .. | .float .. | .str .. => by
    rw [checkExpr]
    exact QuietlyIn.pure fun _ => Scopes.Holds.of_leaf (locals_some (List.Subset.refl _))
  | .ref name span => by rw [checkExpr]; exact checkReference_locals name span
  | .ctor name span => by
    rw [checkExpr]
    exact .of_quietly (checkConstructor_locals name span) fun _ _ h => Scopes.Holds.of_leaf h
  | .array items span => by
    rw [checkExpr]
    refine (checkExprs_locals items).bind fun checked =>
      QuietlyIn.of_quietly (arrayLiteral_locals checked span) fun ss r h hitems t ht u hu => ?_
    obtain ⟨xs, hxs, hsub⟩ := h t ht
    obtain ⟨x, hx, hux⟩ := Typed.Expr.mem_listLocals.mp (hsub hu)
    exact hitems (some x) (allChecked_mem hxs hx) x rfl u hux
  | .paren inner span => by
    rw [checkExpr]
    refine (checkExpr_locals inner).bind fun r => QuietlyIn.pure fun ss hr t ht => ?_
    obtain ⟨e, he, rfl⟩ := Option.mem_map.mp ht
    have hl := hr e he
    rwa [Typed.Expr.locals_eq] at hl
  | .field stem name span => by
    rw [checkExpr]
    exact (checkExpr_locals stem).bind_option (checkExpr_quietly stem)
      (fun s => .of_quietly (fieldAccess_locals s name span) fun _ _ h hs => locals_of_subset h hs)
      (Quietly.pure trivial)
  | .index array index span => by
    rw [checkExpr]
    exact (checkExpr_locals array).bind_option (checkExpr_quietly array)
      (fun a => (checkExpr_locals index).bind_option (checkExpr_quietly index)
        (fun i => .of_quietly (indexAccess_locals a i span) fun _ _ h hi ha =>
          locals_of_subset h (ha.append hi))
        (Quietly.pure trivial))
      ((checkExpr_quietly index).bind fun _ => Quietly.pure fun _ => trivial)
  | .call callee args span => by
    rw [checkExpr]
    refine (checkExpr_locals callee).bind_option (checkExpr_quietly callee) (fun c => ?_)
      ((checkExprs_quietly args).bind fun _ => Quietly.pure fun _ => trivial)
    refine (checkExprs_locals args).bind fun as => ?_
    split
    next _ c' as' hc has =>
      obtain rfl := Option.some.inj hc
      refine .of_quietly (callOf_locals callee c as' span) fun _ _ h hargs hc =>
        locals_of_subset h (hc.append fun u hu => ?_)
      obtain ⟨x, hx, hux⟩ := Typed.Expr.mem_listLocals.mp hu
      exact hargs (some x) (allChecked_mem has hx) x rfl u hux
    · exact QuietlyIn.pure fun _ _ _ t ht => absurd ht (Option.not_mem_none t)
  | .not operand span => by
    rw [checkExpr]
    refine (checkExpr_locals operand).bind_option (checkExpr_quietly operand) (fun o => ?_)
      (Quietly.pure trivial)
    dsimp only
    split
    · exact QuietlyIn.report_bind fun _ => Quietly.pure trivial
    · refine QuietlyIn.pure fun _ ho t ht => ?_
      rw [Option.mem_def, Option.some.injEq] at ht
      subst ht
      exact ho
  | .binary op left right span => by
    rw [checkExpr]
    exact (checkExpr_locals left).bind_option (checkExpr_quietly left)
      (fun l => (checkExpr_locals right).bind_option (checkExpr_quietly right)
        (fun r => .of_quietly (binaryOf_locals op l r span) fun _ _ h hr hl =>
          locals_of_subset h (hl.append hr))
        (Quietly.pure trivial))
      ((checkExpr_quietly right).bind fun _ => Quietly.pure fun _ => trivial)
  | .assign target value span => by
    rw [checkExpr]
    exact (checkPlace_locals target).bind_option (checkPlace_quietly target)
      (fun p => (checkExpr_locals value).bind_option (checkExpr_quietly value)
        (fun v => .of_quietly (assignOf_locals p v span) fun _ _ h hv hp =>
          locals_of_subset h (hp.append hv))
        (Quietly.pure trivial))
      ((checkExpr_quietly value).bind fun _ => Quietly.pure fun _ => trivial)

theorem checkExprs_locals : (es : List Expr) →
    QuietlyIn (fun ss rs => ∀ o ∈ rs, ∀ t ∈ o, ss.Holds t.locals) (checkExprs es)
  | [] => by
    rw [checkExprs]
    exact QuietlyIn.pure fun _ _ ho => absurd ho List.not_mem_nil
  | e :: es => by
    rw [checkExprs]
    refine (checkExpr_locals e).bind fun first => (checkExprs_locals es).bind fun rest =>
      QuietlyIn.pure fun _ hrest hfirst o ho => ?_
    rcases List.mem_cons.mp ho with rfl | ho
    · exact hfirst
    · exact hrest o ho

theorem checkPlace_locals : (e : Expr) →
    QuietlyIn (fun ss r => ∀ pt ∈ r, ss.Holds pt.1.locals) (checkPlace e)
  | .paren inner _ => by rw [checkPlace]; exact checkPlace_locals inner
  | .ref name span => by
    rw [checkPlace]
    refine (checkReference_locals name span).bind_option (checkReference_quietly name span)
      (fun r => ?_) (Quietly.pure trivial)
    split
    next _ _ _ _ hr' =>
      obtain rfl := Option.some.inj hr'
      exact QuietlyIn.pure fun _ hr pt hpt => by
        rw [Option.mem_def, Option.some.injEq] at hpt
        subst hpt
        exact hr
    · exact QuietlyIn.pure fun _ _ pt hpt => by
        rw [Option.mem_def, Option.some.injEq] at hpt
        subst hpt
        exact fun _ hu => absurd hu List.not_mem_nil
    · exact QuietlyIn.report_bind fun _ => Quietly.pure trivial
    next absent => cases absent
  | .field stem name span => by
    rw [checkPlace]
    refine (checkExpr_locals stem).bind_option (checkExpr_quietly stem) (fun s => ?_)
      (Quietly.pure trivial)
    refine (QuietlyIn.of_quietly (fieldAccess_locals s name span) fun _ _ h => h).bind_option
      (p := fun _ t => t.locals ⊆ s.locals) (fieldAccess_quietly s name span) (fun r => ?_)
      (Quietly.pure trivial)
    split
    next _ _ _ _ hr' =>
      obtain rfl := Option.some.inj hr'
      exact QuietlyIn.pure fun _ hr hs pt hpt => by
        rw [Option.mem_def, Option.some.injEq] at hpt
        subst hpt
        exact hs.of_subset hr
    · exact QuietlyIn.report_bind fun _ => Quietly.pure trivial
    next absent => cases absent
  | .index array index span => by
    rw [checkPlace]
    refine (checkExpr_locals array).bind_option (checkExpr_quietly array) (fun a => ?_)
      ((checkExpr_quietly index).bind fun _ => Quietly.pure fun _ => trivial)
    refine (checkExpr_locals index).bind_option (checkExpr_quietly index) (fun i => ?_)
      (Quietly.pure trivial)
    refine (QuietlyIn.of_quietly (indexAccess_locals a i span) fun _ _ h => h).bind_option
      (p := fun _ t => t.locals ⊆ a.locals ++ i.locals) (indexAccess_quietly a i span)
      (fun r => ?_) (Quietly.pure trivial)
    split
    next _ _ _ _ hr' =>
      obtain rfl := Option.some.inj hr'
      exact QuietlyIn.pure fun _ hr hi ha pt hpt => by
        rw [Option.mem_def, Option.some.injEq] at hpt
        subst hpt
        exact (ha.append hi).of_subset hr
    · exact QuietlyIn.report_bind fun _ => Quietly.pure trivial
    next absent => cases absent
  | .int .. | .float .. | .str .. | .ctor .. | .array .. | .call .. | .not .. | .binary ..
  | .assign .. => by
    unfold checkPlace
    exact QuietlyIn.report_bind fun _ => Quietly.pure trivial

end

theorem checkCondition_locals (cond : Expr) (statement : String) :
    QuietlyIn (fun ss r => ∀ t ∈ r, ss.Holds t.locals) (checkCondition cond statement) := by
  unfold checkCondition
  refine (checkExpr_locals cond).bind_option (checkExpr_quietly cond) (fun c => ?_)
    (Quietly.pure trivial)
  dsimp only
  split
  · exact QuietlyIn.report_bind fun _ => Quietly.pure trivial
  · refine QuietlyIn.pure fun _ hc t ht => ?_
    rw [Option.mem_def, Option.some.injEq] at ht
    subst ht
    exact hc

theorem checkReturn_locals (span : Span) (value : Option Expr) :
    QuietlyIn (fun ss r => ∀ v ∈ r, ∀ e ∈ v, ss.Holds e.locals) (checkReturn span value) := by
  unfold checkReturn
  extract_lets jp
  have hjp : ∀ v : Option Typed.Expr, Quietly
      (fun r => ∀ w ∈ r, ∀ e' ∈ w, ∃ e ∈ v, e'.locals = e.locals) (jp (some v)) := by
    intro v
    simp only [jp]
    refine Quietly.bind_reads (fun _ => rfl) fun c => ?_
    split
    · cases v with
      | some e =>
        dsimp only
        split
        · exact Quietly.report_bind fun _ => Quietly.pure trivial
        · refine Quietly.pure fun w hw e' he' => ?_
          rw [Option.mem_def, Option.some.injEq] at hw
          subst hw
          rw [Option.mem_def, Option.some.injEq] at he'
          subst he'
          exact ⟨_, rfl, rfl⟩
      | none =>
        refine Quietly.pure fun w hw e' he' => ?_
        rw [Option.mem_def, Option.some.injEq] at hw
        subst hw
        cases he'
    · refine Quietly.bind_reads (fun _ => rfl) fun info => ?_
      cases v with
      | some e =>
        dsimp only
        split
        · exact Quietly.report_bind fun _ => Quietly.pure trivial
        · split
          · exact Quietly.report_bind fun _ => Quietly.pure trivial
          · refine Quietly.pure fun w hw e' he' => ?_
            rw [Option.mem_def, Option.some.injEq] at hw
            subst hw
            rw [Option.mem_def, Option.some.injEq] at he'
            subst he'
            exact ⟨e, rfl, Typed.Expr.coerceTo_locals e _⟩
      | none =>
        dsimp only
        split
        · exact Quietly.report_bind fun _ => Quietly.pure trivial
        · refine Quietly.pure fun w hw e' he' => ?_
          rw [Option.mem_def, Option.some.injEq] at hw
          subst hw
          cases he'
  have hkeep : ∀ v : Option Typed.Expr, QuietlyIn
      (fun ss r => (∀ e ∈ v, ss.Holds e.locals) → ∀ w ∈ r, ∀ e ∈ w, ss.Holds e.locals)
      (jp (some v)) := fun v =>
    QuietlyIn.of_quietly (hjp v) fun _ _ h hv w hw e' he' => by
      obtain ⟨e, he, heq⟩ := h w hw e' he'
      rw [heq]
      exact hv e he
  cases value with
  | some e =>
    refine (checkExpr_locals e).bind fun r => ?_
    rw [pure_bind]
    rcases r with _ | te
    · exact QuietlyIn.pure fun _ _ w hw => absurd hw (Option.not_mem_none w)
    · exact (hkeep (some te)).mono fun _ _ h hte => h hte
  | none =>
    rw [pure_bind]
    exact (hkeep none).mono fun _ _ h => h fun e he => absurd he (Option.not_mem_none e)

end Sigh.Typing
