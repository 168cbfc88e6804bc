import Sigh.Proofs.Checking.Locals

namespace Sigh

theorem declareIn_nil (Δ : List (List Nat)) : declareIn [] Δ = Δ := by
  cases Δ <;> simp [declareIn]

theorem declareIn_declareIn (xs ys : List Nat) (Δ : List (List Nat)) :
    declareIn ys (declareIn xs Δ) = declareIn (xs ++ ys) Δ := by
  cases Δ <;> simp [declareIn]

theorem Declared.declareIn {Δ : List (List Nat)} {hops slot : Nat} (h : Declared Δ hops slot)
    (slots : List Nat) : Declared (declareIn slots Δ) hops slot := by
  intro D hD
  cases Δ with
  | nil => simp [Sigh.declareIn] at hD
  | cons D₀ Δ =>
    cases hops with
    | zero =>
      simp only [Sigh.declareIn, List.getElem?_cons_zero, Option.mem_def,
        Option.some.injEq] at hD
      subst hD
      exact List.mem_append_left _ (h D₀ rfl)
    | succ hops => exact h D hD

theorem declared_declareIn_self {Δ : List (List Nat)} {slot : Nat} :
    Declared (declareIn [slot] Δ) 0 slot := by
  intro D hD
  cases Δ with
  | nil => simp [declareIn] at hD
  | cons D₀ Δ =>
    simp only [declareIn, List.getElem?_cons_zero, Option.mem_def, Option.some.injEq] at hD
    subst hD
    exact List.mem_append_right _ (List.mem_singleton_self slot)

namespace Typed

theorem Stmt.ListDeclaredUses.append {Δ : List (List Nat)} {us : List Stmt} :
    ∀ {ts : List Stmt}, Stmt.ListDeclaredUses Δ ts →
      Stmt.ListDeclaredUses (declareIn (ts.flatMap Stmt.declares) Δ) us →
      Stmt.ListDeclaredUses Δ (ts ++ us)
  | [], _, h₂ => by rwa [List.flatMap_nil, declareIn_nil] at h₂
  | _ :: _, .cons hs ht, h₂ => by
    rw [List.flatMap_cons, ← declareIn_declareIn] at h₂
    exact .cons hs (ht.append h₂)

end Typed

end Sigh

namespace Sigh.Typing

theorem Scopes.hasVariable_succ {ss : Scopes} {hops slot : Nat} :
    ss.HasVariable (hops + 1) slot ↔ Scopes.HasVariable ss.tail hops slot := by
  cases ss <;> simp [Scopes.HasVariable]

/-- Every variable of a scope that `Δ` records a block for is declared there. -/
def Scopes.Tracks (ss : Scopes) (Δ : List (List Nat)) : Prop :=
  ∀ hops slot, ss.HasVariable hops slot → Declared Δ hops slot

namespace Scopes.Tracks

variable {ss ss' : Scopes} {Δ : List (List Nat)}

theorem nil (ss : Scopes) : ss.Tracks [] := fun _ _ _ _ hD => by simp at hD

theorem allDeclared {uses : List (Nat × Nat)} (h : ss.Tracks Δ) (hu : ss.Holds uses) :
    AllDeclared Δ uses :=
  fun u hmem => h u.1 u.2 (hu u hmem)

theorem push (h : ss.Tracks Δ) (htail : ss'.tail = ss) (htop : ∀ slot, ¬ ss'.HasVariable 0 slot) :
    ss'.Tracks ([] :: Δ) := by
  intro hops slot hv
  cases hops with
  | zero => exact absurd hv (htop slot)
  | succ hops =>
    rw [Scopes.hasVariable_succ, htail] at hv
    exact h hops slot hv

theorem declare {slot : Nat} (h : ss.Tracks Δ)
    (hnew : ∀ hops s, ss'.HasVariable hops s → ss.HasVariable hops s ∨ (hops = 0 ∧ s = slot)) :
    ss'.Tracks (declareIn [slot] Δ) := by
  intro hops s hv
  rcases hnew hops s hv with hold | ⟨rfl, rfl⟩
  · exact (h hops s hold).declareIn [slot]
  · exact declared_declareIn_self

end Scopes.Tracks

/-- Checked statements `ts`, from scopes `ss` to scopes `ss'`: the outer scopes stay, and from
scopes that `Δ` tracks the statements use the variables of their blocks only once declared and
`Δ` with their declarations tracks `ss'`. -/
def Scopes.Ordered (ss ss' : Scopes) (Δ : List (List Nat)) (ts : List Typed.Stmt) : Prop :=
  ss'.tail = ss.tail ∧
    (ss.Tracks Δ → ss'.Tracks (declareIn (ts.flatMap Typed.Stmt.declares) Δ) ∧
      Typed.Stmt.ListDeclaredUses Δ ts)

namespace Scopes.Ordered

variable {ss₁ ss₂ ss₃ : Scopes} {Δ : List (List Nat)}

theorem append {ts us : List Typed.Stmt} (h₁ : Ordered ss₁ ss₂ Δ ts)
    (h₂ : Ordered ss₂ ss₃ (declareIn (ts.flatMap Typed.Stmt.declares) Δ) us) :
    Ordered ss₁ ss₃ Δ (ts ++ us) := by
  refine ⟨h₂.1.trans h₁.1, fun ht => ?_⟩
  obtain ⟨ht₂, hd₁⟩ := h₁.2 ht
  obtain ⟨ht₃, hd₂⟩ := h₂.2 ht₂
  refine ⟨?_, hd₁.append hd₂⟩
  rwa [List.flatMap_append, ← declareIn_declareIn]

theorem option {ss : Scopes} {r : Option Typed.Stmt} (hd : ∀ t ∈ r, t.declares = [])
    (h : ss.Tracks Δ → ∀ t ∈ r, Typed.Stmt.DeclaredUses Δ t) : Ordered ss ss Δ r.toList := by
  refine ⟨rfl, fun ht => ?_⟩
  cases r with
  | none => exact ⟨by rwa [Option.toList_none, List.flatMap_nil, declareIn_nil], .nil⟩
  | some t =>
    have hdt : t.declares = [] := hd t rfl
    refine ⟨?_, .cons (h ht t rfl) ?_⟩
    · rwa [Option.toList_some, List.flatMap_singleton, hdt, declareIn_nil]
    · rw [hdt, declareIn_nil]
      exact .nil

theorem nil (ss : Scopes) : Ordered ss ss Δ [] :=
  option (r := none) (fun t ht => absurd ht (Option.not_mem_none t))
    fun _ t ht => absurd ht (Option.not_mem_none t)

theorem map {ss : Scopes} {α : Type} {r : Option α} {f : α → Typed.Stmt}
    (hd : ∀ a, (f a).declares = []) (h : ss.Tracks Δ → ∀ a ∈ r, Typed.Stmt.DeclaredUses Δ (f a)) :
    Ordered ss ss Δ (r.map f).toList := by
  refine option (fun t ht => ?_) fun htr t ht => ?_
  · obtain ⟨a, -, rfl⟩ := Option.mem_map.mp ht
    exact hd a
  · obtain ⟨a, ha, rfl⟩ := Option.mem_map.mp ht
    exact h htr a ha

end Scopes.Ordered

/-- Every body recorded in the state uses the variables of its blocks only once declared. -/
def Checker.DeclaredBodies (c : Checker) : Prop :=
  ∀ (i : Nat) (f : FunctionInfo) (b : Typed.Block), c.functions[i]? = some f → f.body = some b →
    b.DeclaredUses []

theorem Checker.DeclaredBodies.congr {c c' : Checker} (h : c.DeclaredBodies)
    (hf : c'.functions = c.functions) : c'.DeclaredBodies := by
  intro i f b hi hb
  rw [hf] at hi
  exact h i f b hi hb

theorem Checker.DeclaredBodies.hoisted {ss : List Stmt} {c c' : Checker} (h : c.DeclaredBodies)
    (hh : Hoisted ss c c') : c'.DeclaredBodies := by
  intro i f b hi hb
  by_cases hlt : i < c.functions.size
  · rw [hh.old_functions i hlt] at hi
    exact h i f b hi hb
  · rw [hh.new_functions i f (by omega) hi] at hb
    cases hb

/-- What a check from `c` to `c'` orders. It only adds diagnostics, `out` holds when it adds
none, and then it records only bodies that declare before use. -/
structure Checker.Orders (c c' : Checker) (out : Prop) : Prop where
  appends : c.Appends c'
  kept : c.Quiet c' → out
  bodies : c.Quiet c' → c.DeclaredBodies → c'.DeclaredBodies

namespace Checker.Orders

variable {c c₁ c₂ : Checker} {out out' out'' : Prop}

theorem trans (h₁ : Orders c c₁ out) (h₂ : Orders c₁ c₂ out') (hout : out → out' → out'') :
    Orders c c₂ out'' where
  appends := h₁.appends.trans h₂.appends
  kept hq := hout (h₁.kept (h₁.appends.quiet_left h₂.appends hq))
    (h₂.kept (h₁.appends.quiet_right h₂.appends hq))
  bodies hq hb := h₂.bodies (h₁.appends.quiet_right h₂.appends hq)
    (h₁.bodies (h₁.appends.quiet_left h₂.appends hq) hb)

theorem mono (h : Orders c c₁ out) (hout : out → out') : Orders c c₁ out' :=
  { h with kept := fun hq => hout (h.kept hq) }

theorem of_declares (h : c.Declares c₁) (hout : c.Quiet c₁ → out) : Orders c c₁ out where
  appends := .of_declares h
  kept := hout
  bodies _ hb := hb.congr h.functions

theorem scopes (c : Checker) (scopes : Scopes) : Orders c { c with scopes := scopes } True where
  appends := .of_eq rfl
  kept _ := trivial
  bodies _ hb := hb.congr rfl

theorem of_quietlyIn {α : Type} {ok : Scopes → α → Prop} {x : CheckM α} (hx : QuietlyIn ok x)
    (c : Checker) :
    Orders c (x.run c).2 ((x.run c).2.scopes = c.scopes ∧ ok c.scopes (x.run c).1) := by
  obtain ⟨hadds, hok⟩ := hx c
  refine of_declares (.of_adds hadds) fun hq => ⟨?_, hok hq⟩
  obtain ⟨ds, hds⟩ := hadds
  rw [hds]

theorem record_body {fn : Nat} {b : Typed.Block} (h : Orders c c₁ out)
    (hb : out → b.DeclaredUses []) : Orders c ((setBody fn b).run c₁).2 out := by
  rw [setBody_run]
  refine { appends := h.appends.trans (.of_eq rfl)
           kept := fun hq => h.kept hq
           bodies := fun hq hd i f b' hf hb' => ?_ }
  have hq' : c.Quiet c₁ := hq
  rw [Array.getElem?_modify] at hf
  split at hf
  · obtain ⟨f₀, -, rfl⟩ := Option.map_eq_some_iff.mp hf
    obtain rfl : b = b' := Option.some.inj hb'
    exact hb (h.kept hq')
  · exact h.bodies hq' hd i f b' hf hb'

end Checker.Orders

theorem Scope.insert_names {s s' : Scope} {name : String} {d : Declaration}
    (h : s.insert name d = some s') : s'.names = (name, d) :: s.names := by
  unfold Scope.insert at h
  split at h
  · cases h
  · cases h
    rfl

theorem Scopes.hasVariable_of_names {sc sc' : Scope} {rest : Scopes} {e : String × Declaration}
    (hn : sc'.names = e :: sc.names) {hops slot : Nat}
    (hv : Scopes.HasVariable (sc' :: rest) hops slot) :
    Scopes.HasVariable (sc :: rest) hops slot ∨ (hops = 0 ∧ ∃ ty, e.2 = .variable slot ty) := by
  cases hops with
  | zero =>
    obtain ⟨sc₀, hsc, name, ty, hmem⟩ := hv
    simp only [List.getElem?_cons_zero, Option.mem_def, Option.some.injEq] at hsc
    subst hsc
    rw [hn] at hmem
    rcases List.mem_cons.mp hmem with heq | hmem
    · exact .inr ⟨rfl, ty, by rw [← heq]⟩
    · exact .inl ⟨sc, rfl, name, ty, hmem⟩
  | succ hops => exact .inl (Scopes.hasVariable_succ.mpr (Scopes.hasVariable_succ.mp hv))

/-- `ss'` keeps the outer scopes of `ss`, and its innermost scope holds no variable that the
innermost scope of `ss` does not. -/
def Scopes.AddsNoVariable (ss ss' : Scopes) : Prop :=
  ss'.tail = ss.tail ∧ ∀ slot, ss'.HasVariable 0 slot → ss.HasVariable 0 slot

namespace Scopes.AddsNoVariable

theorem refl (ss : Scopes) : ss.AddsNoVariable ss := ⟨rfl, fun _ h => h⟩

theorem trans {ss₁ ss₂ ss₃ : Scopes} (h₁ : ss₁.AddsNoVariable ss₂) (h₂ : ss₂.AddsNoVariable ss₃) :
    ss₁.AddsNoVariable ss₃ :=
  ⟨h₂.1.trans h₁.1, fun slot h => h₁.2 slot (h₂.2 slot h)⟩

theorem of_eq {ss₁ ss₂ ss₃ : Scopes} (h : ss₁.AddsNoVariable ss₂) (heq : ss₃ = ss₂) :
    ss₁.AddsNoVariable ss₃ := heq ▸ h

end Scopes.AddsNoVariable

theorem Scopes.declare_addsNoVariable {ss ss' : Scopes} {name : String} {d : Declaration}
    (hd : ∀ slot ty, d ≠ .variable slot ty) (h : ss.declare name d = some ss') :
    ss.AddsNoVariable ss' := by
  cases ss with
  | nil => cases h
  | cons s rest =>
    obtain ⟨s', hs, rfl⟩ := Option.map_eq_some_iff.mp h
    refine ⟨rfl, fun slot hv => ?_⟩
    rcases Scopes.hasVariable_of_names (Scope.insert_names hs) hv with hold | ⟨-, ty, he⟩
    · exact hold
    · exact absurd he (hd slot ty)

theorem Scopes.declareVariable_variables {ss ss' : Scopes} {name : String} {ty : Ty} {slot : Nat}
    (h : ss.declareVariable name ty = some (slot, ss')) :
    ss'.tail = ss.tail ∧
      ∀ hops s, ss'.HasVariable hops s → ss.HasVariable hops s ∨ (hops = 0 ∧ s = slot) := by
  cases ss with
  | nil => cases h
  | cons sc rest =>
    obtain ⟨sc', hs, h⟩ := Option.map_eq_some_iff.mp h
    cases h
    refine ⟨rfl, fun hops s hv => ?_⟩
    have hn₀ := Scope.insert_names hs
    have hn : ({ sc' with slots := sc.slots + 1 } : Scope).names =
        (name, .variable sc.slots ty) :: sc.names := hn₀
    rcases Scopes.hasVariable_of_names hn hv with hold | ⟨rfl, ty', he⟩
    · exact .inl hold
    · simp only [Declaration.variable.injEq] at he
      exact .inr ⟨rfl, he.1.symm⟩

theorem declare_addsNoVariable (name : Ident) (d : Declaration)
    (hd : ∀ slot ty, d ≠ .variable slot ty) (c : Checker) :
    c.scopes.AddsNoVariable ((declare name d).run c).2.scopes := by
  unfold declare
  simp only [run_bind]
  split
  next ss h => exact Scopes.declare_addsNoVariable hd h
  · exact .refl _

theorem declareVariable_quiet {name : Ident} {ty : Ty} {c : Checker}
    (hq : c.Quiet ((declareVariable name ty).run c).2) :
    c.scopes.declareVariable name.name ty =
      some (((declareVariable name ty).run c).1, ((declareVariable name ty).run c).2.scopes) := by
  unfold declareVariable at hq ⊢
  simp only [run_bind, get_run] at hq ⊢
  cases h : c.scopes.declareVariable name.name ty with
  | some r => simp only [run_bind, modify_run, run_pure]
  | none =>
    simp only [h, run_bind, report_run, get_run] at hq
    split at hq <;>
      simp only [Checker.Quiet, run_bind, modify_run, run_pure, Array.size_push] at hq <;> omega

theorem declareVariable_orders (name : Ident) (ty : Ty) (c : Checker) :
    Checker.Orders c ((declareVariable name ty).run c).2
      (((declareVariable name ty).run c).2.scopes.tail = c.scopes.tail ∧
        ∀ hops s, ((declareVariable name ty).run c).2.scopes.HasVariable hops s →
          c.scopes.HasVariable hops s ∨ (hops = 0 ∧ s = ((declareVariable name ty).run c).1)) :=
  .of_declares (declareVariable_declares name ty c) fun hq =>
    Scopes.declareVariable_variables (declareVariable_quiet hq)

theorem Checker.Adds.scopes {c c' : Checker} (h : c.Adds c') : c'.scopes = c.scopes := by
  obtain ⟨ds, rfl⟩ := h
  rfl

theorem resolveSignature_scopes (d : FunDecl) (fn : Nat) (c : Checker) :
    ((resolveSignature d fn).run c).2.scopes = c.scopes := by
  obtain ⟨c₁, params, result, hadds, heq⟩ := resolveSignature_run d fn c
  rw [heq]
  exact hadds.scopes

theorem forIn_scopes {α σ : Type} {xs : List α} {init : σ} {f : α → σ → CheckM (ForInStep σ)}
    (hf : ∀ a s c, ∃ s', ((f a s).run c).1 = .yield s' ∧ ((f a s).run c).2.scopes = c.scopes)
    (c : Checker) : ((forIn xs init f).run c).2.scopes = c.scopes :=
  forIn_run_inv (fun _ _ c' => c'.scopes = c.scopes)
    (fun _ a _ s c' _ h => (hf a s c').imp fun _ hs => ⟨hs.1, hs.2.trans h⟩) xs [] init c rfl rfl

theorem hoist_addsNoVariable (ss : List Stmt) (c : Checker) :
    c.scopes.AddsNoVariable ((hoist ss).run c).2.scopes := by
  unfold hoist
  dsimp only
  refine run_forIn_bind (Q := fun r => c.scopes.AddsNoVariable r.2.scopes)
    (fun _ _ c' => c.scopes.AddsNoVariable c'.scopes) (.refl _) ?_ fun acc c₁ h₁ => ?_
  · intro done a rest acc c' _ h
    cases a with
    | structDecl d span =>
      exact ⟨_, rfl, h.trans (declare_addsNoVariable _ (.struct _) (by intro _ _ h; cases h) _)⟩
    | fnDecl d span =>
      exact ⟨_, rfl, h.trans (declare_addsNoVariable _ (.function _) (by intro _ _ h; cases h) _)⟩
    | _ => exact ⟨_, rfl, h⟩
  · rw [← Array.forIn_toList, ← Array.forIn_toList]
    refine run_forIn_bind (Q := fun r => c.scopes.AddsNoVariable r.2.scopes)
      (fun _ _ c' => c'.scopes = c₁.scopes) rfl ?_ fun _ c₂ h₂ => ?_
    · intro done p rest u c' _ h
      obtain ⟨d, sid⟩ := p
      rw [run_bind, run_bind]
      refine ⟨_, rfl, ?_⟩
      rw [run_bind, run_pure]
      refine (forIn_scopes (fun m _ c'' => ⟨_, rfl, ?_⟩) _).trans (((Quietly.mapM_trivial
        (fun b => resolveBinding_adds b .null) d.fields) c').1.scopes.trans h)
      simp only [run_bind, allocateFunction_run, modify_run]
      exact resolveSignature_scopes _ _ _
    · refine run_forIn_bind (Q := fun r => c.scopes.AddsNoVariable r.2.scopes)
        (fun _ _ c' => c'.scopes = c₁.scopes) h₂ ?_ fun _ c₃ h₃ => h₁.of_eq h₃
      intro done p rest u c' _ h
      exact ⟨_, rfl, by rw [run_bind]; exact (resolveSignature_scopes _ _ _).trans h⟩

theorem Scopes.reserve_tail (ss : Scopes) (names : List String) :
    (ss.reserve names).tail = ss.tail := by
  cases ss <;> rfl

theorem Scopes.reserve_hasVariable {ss : Scopes} {names : List String} {hops slot : Nat} :
    (ss.reserve names).HasVariable hops slot ↔ ss.HasVariable hops slot := by
  cases ss with
  | nil => rfl
  | cons s rest => cases hops <;> simp [Scopes.reserve, Scopes.HasVariable]

theorem enterScope_tail (k : ScopeKind) (ss : List Stmt) (c : Checker) :
    ((enterScope k ss).run c).2.scopes.tail = c.scopes := by
  rw [enterScope_run, Scopes.reserve_tail, (hoist_addsNoVariable ss _).1]
  rfl

theorem enterScope_tracks (k : ScopeKind) (ss : List Stmt) {c : Checker} {Δ : List (List Nat)}
    (h : c.scopes.Tracks Δ) : ((enterScope k ss).run c).2.scopes.Tracks ([] :: Δ) := by
  refine h.push (enterScope_tail k ss c) fun slot hv => ?_
  rw [enterScope_run, Scopes.reserve_hasVariable] at hv
  obtain ⟨sc, hsc, name, ty, hmem⟩ := (hoist_addsNoVariable ss _).2 slot hv
  simp only [Scopes.push, List.getElem?_cons_zero, Option.mem_def, Option.some.injEq] at hsc
  subst hsc
  cases hmem

theorem enterScope_orders (k : ScopeKind) (ss : List Stmt) (c : Checker) :
    Checker.Orders c ((enterScope k ss).run c).2 True := by
  let pushed : Checker := { c with scopes := c.scopes.push k }
  have hh := hoist_hoisted ss pushed
  rw [enterScope_run]
  refine { appends :=
             ((Checker.Appends.of_eq rfl).trans (hoist_appends ss pushed)).trans (.of_eq rfl)
           kept := fun _ => trivial
           bodies := fun _ hb => ?_ }
  have hp : Checker.DeclaredBodies pushed := hb.congr rfl
  exact (hp.hoisted hh).congr rfl

theorem declare_orders (name : Ident) (d : Declaration) (hd : ∀ slot ty, d ≠ .variable slot ty)
    (c : Checker) : Checker.Orders c ((declare name d).run c).2
      (((declare name d).run c).2.scopes.tail = c.scopes.tail) :=
  .of_declares (declare_declares name d c) fun _ => (declare_addsNoVariable name d hd c).1

theorem forIn_orders {α : Type} {xs : List α} {f : α → PUnit → CheckM (ForInStep PUnit)}
    (hf : ∀ a c, ((f a ⟨⟩).run c).1 = .yield ⟨⟩ ∧
      Checker.Orders c ((f a ⟨⟩).run c).2 (((f a ⟨⟩).run c).2.scopes.tail = c.scopes.tail))
    (c : Checker) : Checker.Orders c ((forIn xs ⟨⟩ f).run c).2
      (((forIn xs ⟨⟩ f).run c).2.scopes.tail = c.scopes.tail) :=
  forIn_run_inv (fun _ _ c' => Checker.Orders c c' (c'.scopes.tail = c.scopes.tail))
    (fun _ a _ _ c' _ h => ⟨⟨⟩, (hf a c').1, h.trans (hf a c').2 fun h₁ h₂ => h₂.trans h₁⟩)
    xs [] ⟨⟩ c rfl (.of_declares (.refl c) fun _ => rfl)

theorem Scopes.pop_snd (ss : Scopes) : ss.pop.2 = ss.tail := by
  cases ss <;> rfl

theorem Checker.Orders.scoped {k : ScopeKind} {stmts : List Stmt} {c c₂ : Checker}
    {Δ : List (List Nat)} {ts : List Typed.Stmt}
    (h : Checker.Orders ((enterScope k stmts).run c).2 c₂
      (Scopes.Ordered ((enterScope k stmts).run c).2.scopes c₂.scopes ([] :: Δ) ts)) :
    Checker.Orders c { c₂ with scopes := c₂.scopes.pop.2 }
      (c₂.scopes.pop.2 = c.scopes ∧
        (c.scopes.Tracks Δ → Typed.Stmt.ListDeclaredUses ([] :: Δ) ts)) := by
  refine ((enterScope_orders k stmts c).trans h fun _ h => h).trans (.scopes c₂ _)
    fun ho _ => ⟨?_, fun ht => (ho.2 (enterScope_tracks k stmts ht)).2⟩
  rw [Scopes.pop_snd, ho.1, enterScope_tail]

theorem Checker.Orders.of_single {x : CheckM (Option Typed.Stmt)} {Δ : List (List Nat)}
    (hx : QuietlyIn (fun ss r => ∀ t ∈ r, t.declares = [] ∧
      (ss.Tracks Δ → Typed.Stmt.DeclaredUses Δ t)) x) (c : Checker) :
    Checker.Orders c (x.run c).2 (c.scopes.Ordered (x.run c).2.scopes Δ (x.run c).1.toList) := by
  refine (Checker.Orders.of_quietlyIn hx c).mono fun h => ?_
  obtain ⟨hsc, hok⟩ := h
  rw [hsc]
  exact Scopes.Ordered.option (fun t ht => (hok t ht).1) fun htr t ht => (hok t ht).2 htr

/-- What checking statement `s` orders, from any state and for any blocks `Δ`. -/
def StmtOrders (s : Stmt) : Prop :=
  ∀ (c : Checker) (Δ : List (List Nat)), Checker.Orders c ((checkStmt s).run c).2
    (c.scopes.Ordered ((checkStmt s).run c).2.scopes Δ ((checkStmt s).run c).1.toList)

/-- What checking statements `ss` in order orders. -/
def StmtsOrders (ss : List Stmt) : Prop :=
  ∀ (c : Checker) (Δ : List (List Nat)), Checker.Orders c ((checkStmts ss).run c).2
    (c.scopes.Ordered ((checkStmts ss).run c).2.scopes Δ ((checkStmts ss).run c).1)

/-- Checking `s` as the body of an `if` or a loop leaves the scopes as they were and gives a
statement that declares before use. -/
def BodyOrders (s : Stmt) : Prop :=
  ∀ (c : Checker) (Δ : List (List Nat)), Checker.Orders c ((checkBody s).run c).2
    (((checkBody s).run c).2.scopes = c.scopes ∧
      (c.scopes.Tracks Δ → Typed.Stmt.DeclaredUses Δ ((checkBody s).run c).1))

/-- Checking the body of function `fn` leaves the scopes as they were. -/
def FunctionOrders (d : FunDecl) (fn : Nat) : Prop :=
  ∀ c : Checker, Checker.Orders c ((checkFunction d fn).run c).2
    (((checkFunction d fn).run c).2.scopes = c.scopes)

def MethodsOrders (ms : List FunDecl) (fns : List Nat) : Prop :=
  ∀ c : Checker, Checker.Orders c ((checkMethods ms fns).run c).2
    (((checkMethods ms fns).run c).2.scopes = c.scopes)

def StructOrders (d : StructDecl) : Prop :=
  ∀ c : Checker, Checker.Orders c ((checkStruct d).run c).2
    (((checkStruct d).run c).2.scopes = c.scopes)

theorem checkStmt_block_orders (body : List Stmt) (span : Span) (ih : StmtsOrders body) :
    StmtOrders (.block body span) := by
  intro c Δ
  rw [checkStmt.eq_1]
  simp only [run_bind, popScope_run, run_pure]
  have hs := ih ((enterScope .block body).run c).2 ([] :: Δ)
  generalize (checkStmts body).run ((enterScope .block body).run c).2 = r at hs ⊢
  obtain ⟨ss, c₂⟩ := r
  refine hs.scoped.mono fun h => ?_
  obtain ⟨hsc, hd⟩ := h
  dsimp only
  rw [hsc]
  exact Scopes.Ordered.option (fun t ht => by cases ht; rfl) fun ht t htt => by
    cases htt
    exact .block (hd ht)

theorem checkStmt_var_orders (name : Ident) (type : TypeExpr) (init : Expr) (span : Span) :
    StmtOrders (.var name type init span) := by
  intro c Δ
  rw [checkStmt.eq_2]
  refine .of_declares (checkVar_declares name type init span c).1 fun hq => ?_
  unfold checkVar at hq ⊢
  simp only [run_bind] at hq ⊢
  obtain ⟨h₁, hq₁⟩ := checkExpr_locals init c
  have hs₁ := (checkExpr_quietly init c).2
  generalize (checkExpr init).run c = r₁ at h₁ hq₁ hs₁ hq ⊢
  obtain ⟨value, c₁⟩ := r₁
  obtain ⟨h₂, hq₂⟩ := resolveType_quietly type c₁
  generalize (resolveType type).run c₁ = r₂ at h₂ hq₂ hq ⊢
  obtain ⟨ty, c₂⟩ := r₂
  have h₃ := declareVariable_orders name (ty.getD .null) c₂
  generalize (declareVariable name (ty.getD .null)).run c₂ = r₃ at h₃ hq ⊢
  obtain ⟨slot, c₃⟩ := r₃
  have hl₁ := h₁.size_le
  have hl₂ := h₂.size_le
  have hl₃ := h₃.appends.size_le
  have hsc : c₂.scopes = c.scopes := h₂.scopes.trans h₁.scopes
  dsimp only at hq₁ hs₁ hq₂ hq h₃ hl₁ hl₂ hl₃ hsc ⊢
  split
  next v t =>
    dsimp only at hq
    split
    · rename_i hnot
      rw [if_pos hnot, run_bind, report_run] at hq
      simp only [Checker.Quiet, run_pure, Array.size_push] at hq
      omega
    · rename_i hfit
      rw [if_neg hfit, run_pure] at hq
      change c.scopes.Ordered c₃.scopes Δ [.declare slot (v.coerceTo t) span]
      obtain ⟨htail, hnew⟩ := h₃.kept (by simp only [Checker.Quiet] at hq ⊢; omega)
      rw [hsc] at htail hnew
      refine ⟨htail, fun htr => ⟨?_, .cons (.declare ?_) .nil⟩⟩
      · simpa [Typed.Stmt.declares] using htr.declare hnew
      · rw [Typed.Expr.coerceTo_locals]
        exact htr.allDeclared (hq₁ (by simp only [Checker.Quiet] at hq; omega) v rfl)
  · rename_i hnone
    simp only [Checker.Quiet, run_pure] at hq
    obtain ⟨v, rfl⟩ := Option.isSome_iff_exists.mp (hs₁ (by omega))
    obtain ⟨t, rfl⟩ := Option.isSome_iff_exists.mp (hq₂ (by omega))
    exact (hnone v t rfl rfl).elim

theorem checkStmt_sizedArray_orders (name : Ident) (element : TypeExpr) (dims : List Nat)
    (span : Span) : StmtOrders (.sizedArray name element dims span) := by
  intro c Δ
  rw [checkStmt.eq_3]
  simp only [run_bind]
  obtain ⟨h₁, hq₁⟩ := resolveType_quietly element c
  generalize (resolveType element).run c = r₁ at h₁ hq₁ ⊢
  obtain ⟨ty, c₁⟩ := r₁
  cases ty with
  | none => exact .of_declares (.of_adds h₁) fun hq => absurd (hq₁ hq) (by simp)
  | some el =>
    simp only [run_bind, run_pure]
    have h₂ := declareVariable_orders name (el.arrayOf dims.length) c₁
    generalize (declareVariable name (el.arrayOf dims.length)).run c₁ = r₂ at h₂ ⊢
    obtain ⟨slot, c₂⟩ := r₂
    refine (Checker.Orders.of_declares (.of_adds h₁) fun _ => trivial).trans h₂
      fun _ hd => ?_
    obtain ⟨htail, hnew⟩ := hd
    rw [h₁.scopes] at htail hnew
    refine ⟨htail, fun htr => ⟨?_, .cons .sizedArray .nil⟩⟩
    simpa [Typed.Stmt.declares] using htr.declare hnew

theorem checkStmt_fnDecl_orders (d : FunDecl) (span : Span) (ih : ∀ fn, FunctionOrders d fn) :
    StmtOrders (.fnDecl d span) := by
  intro c Δ
  rw [checkStmt.eq_4]
  simp only [run_bind, get_run]
  split
  next fn _ =>
    simp only [run_bind, run_pure]
    refine (ih fn c).mono fun h => ?_
    rw [h]
    exact .nil _
  next => exact .of_declares (.refl c) fun _ => .nil _

theorem checkStmt_structDecl_orders (d : StructDecl) (span : Span) (ih : StructOrders d) :
    StmtOrders (.structDecl d span) := by
  intro c Δ
  rw [checkStmt.eq_5]
  simp only [run_bind, run_pure]
  refine (ih c).mono fun h => ?_
  rw [h]
  exact .nil _

theorem checkStmt_ifElse_orders (cond : Expr) (thenBranch : Stmt) (elseBranch : Option Stmt)
    (span : Span) (iht : BodyOrders thenBranch)
    (ihe : match elseBranch with | some e => BodyOrders e | none => True) :
    StmtOrders (.ifElse cond thenBranch elseBranch span) := by
  intro c Δ
  rw [checkStmt.eq_6]
  have h₁ := Checker.Orders.of_quietlyIn (checkCondition_locals cond "If") c
  cases elseBranch with
  | none =>
    simp only [run_bind, run_pure]
    generalize (checkCondition cond "If").run c = r₁ at h₁ ⊢
    obtain ⟨cv, c₁⟩ := r₁
    have h₂ := iht c₁ Δ
    generalize (checkBody thenBranch).run c₁ = r₂ at h₂ ⊢
    obtain ⟨t, c₂⟩ := r₂
    refine h₁.trans h₂ fun hcond hthen => ?_
    obtain ⟨hsc₁, hc⟩ := hcond
    obtain ⟨hsc₂, ht⟩ := hthen
    rw [hsc₁] at ht
    rw [hsc₂, hsc₁]
    exact .map (fun _ => rfl) fun htr cv hcv => .ifElse (htr.allDeclared (hc cv hcv)) (ht htr) fun x hx => absurd hx (Option.not_mem_none x)
  | some e =>
    simp only [run_bind, run_pure]
    generalize (checkCondition cond "If").run c = r₁ at h₁ ⊢
    obtain ⟨cv, c₁⟩ := r₁
    have h₂ := iht c₁ Δ
    generalize (checkBody thenBranch).run c₁ = r₂ at h₂ ⊢
    obtain ⟨t, c₂⟩ := r₂
    have h₃ := ihe c₂ Δ
    generalize (checkBody e).run c₂ = r₃ at h₃ ⊢
    obtain ⟨te, c₃⟩ := r₃
    refine (h₁.trans h₂ And.intro).trans h₃ fun hbranch helse => ?_
    obtain ⟨⟨hsc₁, hc⟩, hsc₂, ht⟩ := hbranch
    obtain ⟨hsc₃, he⟩ := helse
    rw [hsc₁] at ht
    rw [hsc₂, hsc₁] at he
    rw [hsc₃, hsc₂, hsc₁]
    exact .map (fun _ => rfl) fun htr cv hcv =>
      .ifElse (htr.allDeclared (hc cv hcv)) (ht htr) fun e' he' => by
        cases he'
        exact he htr

theorem checkStmt_whileLoop_orders (cond : Expr) (body : Stmt) (span : Span)
    (ih : BodyOrders body) : StmtOrders (.whileLoop cond body span) := by
  intro c Δ
  rw [checkStmt.eq_7]
  simp only [run_bind, run_pure]
  have h₁ := Checker.Orders.of_quietlyIn (checkCondition_locals cond "While") c
  generalize (checkCondition cond "While").run c = r₁ at h₁ ⊢
  obtain ⟨cv, c₁⟩ := r₁
  have h₂ := ih c₁ Δ
  generalize (checkBody body).run c₁ = r₂ at h₂ ⊢
  obtain ⟨b, c₂⟩ := r₂
  refine h₁.trans h₂ fun hcond hbody => ?_
  obtain ⟨hsc₁, hc⟩ := hcond
  obtain ⟨hsc₂, hb⟩ := hbody
  rw [hsc₁] at hb
  rw [hsc₂, hsc₁]
  exact .map (fun _ => rfl) fun htr cv hcv => .whileLoop (htr.allDeclared (hc cv hcv)) (hb htr)

theorem checkStmt_ret_orders (value : Option Expr) (span : Span) :
    StmtOrders (.ret value span) := by
  intro c Δ
  rw [checkStmt.eq_8]
  refine Checker.Orders.of_single ((checkReturn_locals span value).bind fun r =>
    QuietlyIn.pure fun ss hr t ht => ?_) c
  obtain ⟨v, hv, rfl⟩ := Option.mem_map.mp ht
  exact ⟨rfl, fun htr => .ret fun e he => htr.allDeclared (hr v hv e he)⟩

theorem checkStmt_expr_orders (e : Expr) (span : Span) : StmtOrders (.expr e span) := by
  intro c Δ
  rw [checkStmt.eq_9]
  have hx : QuietlyIn (fun ss r => ∀ t ∈ r, t.declares = [] ∧
      (ss.Tracks Δ → Typed.Stmt.DeclaredUses Δ t))
      (do pure ((← checkExpr e).map fun e => Typed.Stmt.expr e span)) :=
    (checkExpr_locals e).bind fun r => QuietlyIn.pure fun ss hr t ht => by
      obtain ⟨te, hte, rfl⟩ := Option.mem_map.mp ht
      exact ⟨rfl, fun htr => .expr (htr.allDeclared (hr te hte))⟩
  refine Checker.Orders.of_single ?_ c
  split
  · exact QuietlyIn.report_bind fun _ c' => ⟨(hx c').1, fun _ => trivial⟩
  · exact hx

theorem checkStmts_nil_orders : StmtsOrders [] := by
  intro c Δ
  rw [checkStmts.eq_1]
  exact .of_declares (.refl c) fun _ => .nil _

theorem checkStmts_cons_orders (s : Stmt) (rest : List Stmt) (ihs : StmtOrders s)
    (ihr : StmtsOrders rest) : StmtsOrders (s :: rest) := by
  intro c Δ
  rw [checkStmts.eq_2]
  simp only [run_bind, run_pure]
  have hs := ihs c Δ
  generalize (checkStmt s).run c = r₁ at hs ⊢
  obtain ⟨r, c₁⟩ := r₁
  have hr := ihr c₁ (declareIn (r.toList.flatMap Typed.Stmt.declares) Δ)
  generalize (checkStmts rest).run c₁ = r₂ at hr ⊢
  obtain ⟨rs, c₂⟩ := r₂
  exact hs.trans hr Scopes.Ordered.append

theorem checkBody_block_orders (body : List Stmt) (span : Span) (ih : StmtsOrders body) :
    BodyOrders (.block body span) := by
  intro c Δ
  rw [checkBody.eq_1]
  simp only [run_bind, popScope_run, run_pure]
  have hs := ih ((enterScope .block body).run c).2 ([] :: Δ)
  generalize (checkStmts body).run ((enterScope .block body).run c).2 = r at hs ⊢
  obtain ⟨ss, c₂⟩ := r
  exact hs.scoped.mono fun h => ⟨h.1, fun ht => .block (h.2 ht)⟩

theorem checkBody_other_orders (other : Stmt)
    (hne : ∀ body span, other = .block body span → False) (ih : StmtOrders other) :
    BodyOrders other := by
  intro c Δ
  rw [checkBody.eq_2 other hne]
  simp only [run_bind, popScope_run, run_pure]
  have hs := ih ((enterScope .block [other]).run c).2 ([] :: Δ)
  generalize (checkStmt other).run ((enterScope .block [other]).run c).2 = r at hs ⊢
  obtain ⟨t, c₂⟩ := r
  exact hs.scoped.mono fun h => ⟨h.1, fun ht => .block (h.2 ht)⟩

theorem checkFunction_orders (name : Ident) (params : List Binding) (result : Option TypeExpr)
    (body : List Stmt) (bodySpan : Span) (fn : Nat) (ih : StmtsOrders body) :
    FunctionOrders ⟨name, params, result, body, bodySpan⟩ fn := by
  intro c
  rw [checkFunction.eq_1, run_bind, pushScope_run, run_bind, functionInfo_run]
  dsimp only
  refine run_bind_of (P := fun r => Checker.Orders c r.2 (r.2.scopes = c.scopes))
    (fun r => Checker.Orders { c with scopes := c.scopes.push (.function fn) } r.2
      (r.2.scopes.tail = c.scopes))
    (forIn_orders (fun _ c' => ⟨rfl, (declareVariable_orders _ _ c').mono And.left⟩) _)
    fun _ c₂ h₂ => ?_
  rw [run_bind, run_bind]
  have hs := ih ((enterScope .block body).run c₂).2 [[]]
  generalize (checkStmts body).run ((enterScope .block body).run c₂).2 = r at hs ⊢
  obtain ⟨ss, c₄⟩ := r
  rw [run_bind, popScope_run, run_bind, popScope_run, run_bind, functionInfo_run]
  dsimp only
  have hpre : Checker.Orders c { c₄ with scopes := c₄.scopes.pop.2.pop.2 }
      (c₄.scopes.pop.2.pop.2 = c.scopes ∧ Typed.Stmt.ListDeclaredUses [[]] ss) :=
    (((Checker.Orders.scopes c _).trans h₂ fun _ h => h).trans hs.scoped And.intro).trans
      (.scopes _ _) fun h _ =>
        ⟨by rw [Scopes.pop_snd, h.2.1, h.1], h.2.2 (Scopes.Tracks.nil _)⟩
  split
  · rw [run_bind]
    refine ((hpre.trans (.of_declares (.of_adds (report_adds _ _ _)) fun _ => trivial)
      fun h _ => h).record_body ?_).mono fun h => h.1
    exact fun h => h.2
  · refine (hpre.record_body ?_).mono fun h => h.1
    exact fun h => h.2

theorem checkStruct_orders (name : Ident) (fields : List Binding) (methods : List FunDecl)
    (ih : ∀ info : StructInfo, MethodsOrders methods (info.methods.map (·.2))) :
    StructOrders ⟨name, fields, methods⟩ := by
  intro c
  rw [checkStruct.eq_1, run_bind, get_run]
  dsimp only
  split
  next => exact .of_declares (.refl c) fun _ => rfl
  next sid _ =>
    rw [run_bind, pushScope_run, run_bind, structInfo_run]
    dsimp only
    refine run_bind_of (P := fun r => Checker.Orders c r.2 (r.2.scopes = c.scopes))
      (fun r => Checker.Orders { c with scopes := c.scopes.push (.struct sid) } r.2
        (r.2.scopes.tail = c.scopes))
      (forIn_orders (fun _ c' =>
        ⟨rfl, declare_orders _ (.field _ _) (by intro _ _ h; cases h) c'⟩) _) fun _ c₂ h₂ => ?_
    refine run_bind_of (P := fun r => Checker.Orders c r.2 (r.2.scopes = c.scopes))
      (fun r => Checker.Orders c₂ r.2 (r.2.scopes.tail = c₂.scopes.tail))
      (forIn_orders (fun _ c' =>
        ⟨rfl, declare_orders _ (.method _) (by intro _ _ h; cases h) c'⟩) _) fun _ c₃ h₃ => ?_
    rw [run_bind]
    have hm := ih (c.structs[sid]?.getD default) c₃
    generalize (checkMethods methods _).run c₃ = r at hm ⊢
    obtain ⟨_, c₄⟩ := r
    rw [run_bind, popScope_run, run_pure]
    exact ((((Checker.Orders.scopes c _).trans h₂ fun _ h => h).trans h₃ And.intro).trans
      (hm.trans (.scopes c₄ _) fun h _ => h) And.intro).mono
      fun h => by rw [Scopes.pop_snd, h.2, h.1.2, h.1.1]

theorem checkMethods_cons_orders (m : FunDecl) (ms : List FunDecl) (fn : Nat) (fns : List Nat)
    (ihm : FunctionOrders m fn) (ihms : MethodsOrders ms fns) :
    MethodsOrders (m :: ms) (fn :: fns) := by
  intro c
  rw [checkMethods.eq_1]
  simp only [run_bind]
  have hm := ihm c
  generalize (checkFunction m fn).run c = r₁ at hm ⊢
  obtain ⟨u, c₁⟩ := r₁
  exact hm.trans (ihms c₁) fun h₁ h₂ => h₂.trans h₁

theorem checkMethods_other_orders (ms : List FunDecl) (fns : List Nat)
    (hne : ∀ m ms' fn fns', ms = m :: ms' → fns = fn :: fns' → False) :
    MethodsOrders ms fns := by
  intro c
  rw [checkMethods.eq_2 ms fns hne]
  exact .of_declares (.refl c) fun _ => rfl

theorem checks_order :
    (∀ s, StmtOrders s) ∧ (∀ s, BodyOrders s) ∧ (∀ ss, StmtsOrders ss) ∧
      (∀ d, StructOrders d) ∧ (∀ ms fns, MethodsOrders ms fns) ∧
      (∀ d fn, FunctionOrders d fn) :=
  checkStmt.mutual_induct StmtOrders BodyOrders StmtsOrders StructOrders MethodsOrders
    FunctionOrders checkStmt_block_orders checkStmt_var_orders checkStmt_sizedArray_orders
    checkStmt_fnDecl_orders checkStmt_structDecl_orders checkStmt_ifElse_orders
    checkStmt_whileLoop_orders checkStmt_ret_orders
    (fun e span _ => checkStmt_expr_orders e span) (fun e span _ => checkStmt_expr_orders e span)
    checkBody_block_orders checkBody_other_orders checkStmts_nil_orders checkStmts_cons_orders
    checkStruct_orders checkMethods_cons_orders checkMethods_other_orders checkFunction_orders

end Sigh.Typing

namespace Sigh

open Typing

theorem Program.check_declaresBeforeUse {p : Program} {tp : Typed.Program}
    (h : p.check = .ok tp) : tp.DeclaresBeforeUse := by
  unfold Program.check at h
  simp only [run_bind, popScope_run, run_pure] at h
  have hs := checks_order.2.2.1 p.statements ((enterScope .root p.statements).run Checker.initial).2
    [[]]
  generalize (checkStmts p.statements).run
    ((enterScope .root p.statements).run Checker.initial).2 = r at hs h
  obtain ⟨ss, c₂⟩ := r
  have hall := hs.scoped
  split at h
  next hempty =>
    cases h
    have hq : Checker.initial.Quiet { c₂ with scopes := c₂.scopes.pop.2 } := by
      simpa [Checker.Quiet, Checker.initial] using hempty
    have hbodies := hall.bodies hq fun _ _ _ h => by simp [Checker.initial] at h
    refine ⟨(hall.kept hq).2 (Scopes.Tracks.nil _), fun f hf => ?_⟩
    obtain ⟨⟨fi, id⟩, hmem, rfl⟩ := Array.mem_map.mp hf
    obtain ⟨i, hi⟩ := Array.mem_iff_getElem?.mp (Array.fst_mem_of_mem_zipIdx hmem)
    cases hb : fi.body with
    | none =>
      simp only [hb, Option.getD_none]
      exact Typed.Stmt.ListDeclaredUses.nil
    | some b =>
      simp only [hb, Option.getD_some]
      exact hbodies i fi b hi hb
  next => cases h

/-- Within one function, no variable of a block is read or assigned before its declaration has
run. In any run of the typed program of a source that reads and checks, a variable expression or
an assignment target `.local hops slot` that is evaluated where the running function has a block
open `hops` blocks up finds that block's frame, and its slot is one whose declaration has already
run in that frame. -/
theorem checked_reads_follow_declarations {source : String} {p : Typed.Program}
    (h : Program.readChecked source = .ok p) {fuel : Nat} {c : Run.Call} {Γ : List Opened}
    {m : Machine} (hv : Run.Visits p fuel c Γ m) :
    (∀ e env hops slot, c = .eval e env → e.kind = .local hops slot →
      ∀ o ∈ Γ[hops]?, m.ancestor env hops = .ok o.frame ∧ slot ∈ o.declared) ∧
    (∀ hops slot value env span, c = .assign (.local hops slot) value env span →
      ∀ o ∈ Γ[hops]?, m.ancestor env hops = .ok o.frame ∧ slot ∈ o.declared) := by
  unfold Program.readChecked at h
  obtain ⟨q, -, hc⟩ := Parse.bind_eq_ok.mp h
  exact hv.local_declared (Program.check_declaresBeforeUse (mapError_eq_ok.mp hc))

set_option maxRecDepth 100000 in
/-- `var a: Bool = true` then `var b: Bool = a` checks, its body declares slot 1 from a read of
slot 0 after a first statement, and that statement, run in a fresh root frame, ends normally
having declared slot 0. -/
theorem second_declaration_run :
    (match Program.readChecked "var a: Bool = true\nvar b: Bool = a" with
      | .ok p => match p.body.statements with
        | [s₁, .declare 1 ⟨.local 0 0, _, _⟩ _] =>
          match (newFrame none none (.replicate p.body.slots .null)).run.run Machine.empty with
          | (.ok 0, m₁) => match (Run.exec p 2 s₁ 0).run.run m₁ with
            | (.ok .normal, _) => s₁.declares == [0]
            | _ => false
          | _ => false
        | _ => false
      | .error _ => false) = true := by
  decide +kernel

set_option maxRecDepth 100000 in
/-- The second declaration reads the first variable once the first declaration has run. -/
theorem checked_reads_follow_declarations_second :
    ∃ p, Program.readChecked "var a: Bool = true\nvar b: Bool = a" = .ok p ∧
      ∃ (e : Typed.Expr) (m : Machine), e.kind = .local 0 0 ∧
        Run.Visits p 0 (.eval e 0) [⟨0, [0]⟩] m ∧ m.ancestor 0 0 = .ok 0 ∧ 0 ∈ [0] := by
  have hcomp := second_declaration_run
  cases hrc : Program.readChecked "var a: Bool = true\nvar b: Bool = a" with
  | error => simp [hrc] at hcomp
  | ok p =>
    simp only [hrc] at hcomp
    split at hcomp
    next s₁ ty span₁ span₂ hss =>
      split at hcomp
      next m₁ hroot =>
        split at hcomp
        next m₂ hs₁ =>
          have hdecl : s₁.declares = [0] := by simpa using hcomp
          have hv₀ : Run.Visits p 3 (.execStmts p.body.statements 0) [⟨0, []⟩] m₁ := .root hroot
          rw [hss] at hv₀
          have hv₁ := hv₀.execStmtsTail hs₁
          rw [hdecl] at hv₁
          have hv := (Run.Visits.execStmtsHead hv₁).execDeclare
          exact ⟨p, rfl, _, m₂, rfl, hv,
            (checked_reads_follow_declarations hrc hv).1 _ 0 0 0 rfl rfl ⟨0, [0]⟩ rfl⟩
        all_goals simp at hcomp
      all_goals simp at hcomp
    all_goals simp at hcomp

end Sigh
