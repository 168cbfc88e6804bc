import Sigh.Proofs.Checking.Hoisting
import Sigh.Proofs.Returning

namespace Sigh.Typing

/-- Function `i` is numbered but has no body yet. -/
def Checker.Pending (c : Checker) (i : Nat) : Prop :=
  ∃ f, c.functions[i]? = some f ∧ f.body = none

/-- Every body recorded for a function with a result returns a value. -/
def Checker.GoodBodies (c : Checker) : Prop :=
  ∀ (i : Nat) (f : FunctionInfo) (b : Typed.Block), c.functions[i]? = some f →
    f.body = some b → f.result.isVoid = false → b.ReturnsValue

/-- The innermost function in force has a result, so a `return` in it must carry a value. -/
def Checker.MustValue (c : Checker) : Prop :=
  ∃ fn f, c.scopes.currentFunction? = some fn ∧ c.functions[fn]? = some f ∧
    f.result.isVoid = false

/-- No diagnostic was added between `c` and `c'`. -/
def Checker.Quiet (c c' : Checker) : Prop := c'.diagnostics.size = c.diagnostics.size

/-- Checked statements in which no `return` is bare, one of which returns a value when `always`
says that the statements always return. -/
def Returning (always : Bool) (ts : List Typed.Stmt) : Prop :=
  (∀ t ∈ ts, t.NoBareReturn) ∧ (always = true → ∃ t ∈ ts, t.Returns)

/-- What checking may change in the state. Diagnostics are added; functions get bodies, never
lose one, and keep their signatures; new functions and structs are numbered and their names
hoisted under keys from `keys`; what was there stays. -/
structure Checker.Grows (keys : List Nat) (c c' : Checker) : Prop where
  diagnostics : c.diagnostics.size ≤ c'.diagnostics.size
  functions : ∀ (i : Nat) (f : FunctionInfo), c.functions[i]? = some f →
    ∃ body : Option Typed.Block, c'.functions[i]? = some { f with body := body } ∧ (body = none → f.body = none)
  structs : ∀ (i : Nat) (s : StructInfo), c.structs[i]? = some s → c'.structs[i]? = some s
  hoistedFunctions : ∃ new, c'.hoistedFunctions = new ++ c.hoistedFunctions ∧
    ∀ e ∈ new, e.1 ∈ keys
  hoistedStructs : ∃ new, c'.hoistedStructs = new ++ c.hoistedStructs ∧
    ∀ e ∈ new, e.1 ∈ keys
  valid : c.Valid → c'.Valid

namespace Checker.Grows

variable {keys keys' : List Nat} {c c₁ c₂ : Checker}

theorem refl (c : Checker) : c.Grows keys c where
  diagnostics := Nat.le_refl _
  functions _ f h := ⟨f.body, h, fun hb => hb⟩
  structs _ _ h := h
  hoistedFunctions := ⟨[], rfl, List.forall_mem_nil _⟩
  hoistedStructs := ⟨[], rfl, List.forall_mem_nil _⟩
  valid := id

theorem trans (h₁ : c.Grows keys c₁) (h₂ : c₁.Grows keys c₂) : c.Grows keys c₂ where
  diagnostics := Nat.le_trans h₁.diagnostics h₂.diagnostics
  functions i f h := by
    obtain ⟨b₁, hb₁, hn₁⟩ := h₁.functions i f h
    obtain ⟨b₂, hb₂, hn₂⟩ := h₂.functions i _ hb₁
    exact ⟨b₂, hb₂, fun hb => hn₁ (hn₂ hb)⟩
  structs i s h := h₂.structs i s (h₁.structs i s h)
  hoistedFunctions := by
    obtain ⟨n₁, e₁, k₁⟩ := h₁.hoistedFunctions
    obtain ⟨n₂, e₂, k₂⟩ := h₂.hoistedFunctions
    refine ⟨n₂ ++ n₁, by rw [e₂, e₁, List.append_assoc], fun e he => ?_⟩
    rcases List.mem_append.mp he with he | he
    exacts [k₂ e he, k₁ e he]
  hoistedStructs := by
    obtain ⟨n₁, e₁, k₁⟩ := h₁.hoistedStructs
    obtain ⟨n₂, e₂, k₂⟩ := h₂.hoistedStructs
    refine ⟨n₂ ++ n₁, by rw [e₂, e₁, List.append_assoc], fun e he => ?_⟩
    rcases List.mem_append.mp he with he | he
    exacts [k₂ e he, k₁ e he]
  valid hv := h₂.valid (h₁.valid hv)

theorem mono (h : c.Grows keys c₁) (hk : ∀ k ∈ keys, k ∈ keys') : c.Grows keys' c₁ where
  diagnostics := h.diagnostics
  functions := h.functions
  structs := h.structs
  hoistedFunctions := by
    obtain ⟨n, e, k⟩ := h.hoistedFunctions
    exact ⟨n, e, fun x hx => hk _ (k x hx)⟩
  hoistedStructs := by
    obtain ⟨n, e, k⟩ := h.hoistedStructs
    exact ⟨n, e, fun x hx => hk _ (k x hx)⟩
  valid := h.valid

theorem of_scopes (c : Checker) (scopes : Scopes) (ds : Array Diagnostic) :
    c.Grows keys { c with scopes := scopes, diagnostics := c.diagnostics ++ ds } where
  diagnostics := by simp
  functions _ f h := ⟨f.body, h, fun hb => hb⟩
  structs _ _ h := h
  hoistedFunctions := ⟨[], rfl, List.forall_mem_nil _⟩
  hoistedStructs := ⟨[], rfl, List.forall_mem_nil _⟩
  valid hv := hv.of_le rfl rfl (Nat.le_refl _)

theorem scopes (c : Checker) (scopes : Scopes) : c.Grows keys { c with scopes := scopes } where
  diagnostics := Nat.le_refl _
  functions _ f h := ⟨f.body, h, fun hb => hb⟩
  structs _ _ h := h
  hoistedFunctions := ⟨[], rfl, List.forall_mem_nil _⟩
  hoistedStructs := ⟨[], rfl, List.forall_mem_nil _⟩
  valid hv := hv.of_le rfl rfl (Nat.le_refl _)

theorem of_declares (h : c.Declares c₁) : c.Grows keys c₁ := by
  obtain ⟨scopes, ds, rfl, -⟩ := h
  exact of_scopes c scopes ds

theorem functions_size (h : c.Grows keys c₁) : c.functions.size ≤ c₁.functions.size := by
  rcases Nat.eq_zero_or_pos c.functions.size with h0 | hpos
  · omega
  · obtain ⟨b, hb, -⟩ := h.functions _ _ (Array.getElem?_eq_getElem (Nat.sub_lt hpos Nat.one_pos))
    have := (Array.getElem?_eq_some_iff.mp hb).1
    omega

theorem result (h : c.Grows keys c₁) {fn : Nat} {f : FunctionInfo}
    (hf : c.functions[fn]? = some f) : ∃ g, c₁.functions[fn]? = some g ∧ g.result = f.result := by
  obtain ⟨b, hb, -⟩ := h.functions fn f hf
  exact ⟨_, hb, rfl⟩

end Checker.Grows

theorem Scopes.currentFunction?_eq_of_kinds {ss ss' : Scopes}
    (h : ss.map (·.kind) = ss'.map (·.kind)) : ss.currentFunction? = ss'.currentFunction? := by
  induction ss generalizing ss' with
  | nil => cases ss' <;> simp_all
  | cons s rest ih =>
    cases ss' with
    | nil => simp at h
    | cons s' rest' =>
      simp only [List.map_cons, List.cons.injEq] at h
      simp only [Scopes.currentFunction?, h.1, ih h.2]

theorem Checker.MustValue.of_grows {keys : List Nat} {c c' : Checker} (hm : c.MustValue)
    (h : c.Grows keys c') (hcur : c'.scopes.currentFunction? = c.scopes.currentFunction?) :
    c'.MustValue := by
  obtain ⟨fn, f, hfn, hf, hr⟩ := hm
  obtain ⟨g, hg, hgr⟩ := h.result hf
  exact ⟨fn, g, hcur.trans hfn, hg, hgr ▸ hr⟩

theorem Checker.Quiet.left {c c₁ c₂ : Checker} (h₁ : c.diagnostics.size ≤ c₁.diagnostics.size)
    (h₂ : c₁.diagnostics.size ≤ c₂.diagnostics.size) (hq : c.Quiet c₂) : c.Quiet c₁ := by
  unfold Checker.Quiet at *
  omega

theorem Checker.Quiet.right {c c₁ c₂ : Checker} (h₁ : c.diagnostics.size ≤ c₁.diagnostics.size)
    (h₂ : c₁.diagnostics.size ≤ c₂.diagnostics.size) (hq : c.Quiet c₂) : c₁.Quiet c₂ := by
  unfold Checker.Quiet at *
  omega

/-- A check from `c` to `c'` that hoists names under keys from `keys`, leaves no function that it
numbered without a body, gives one to each function of `owns`, and, when it adds no diagnostic,
records only bodies that return a value where one is due. -/
structure Checks (keys owns : List Nat) (c c' : Checker) : Prop where
  grows : c.Grows keys c'
  pending : ∀ i, c'.Pending i → c.Pending i ∧ i ∉ owns
  good : c.Quiet c' → c.GoodBodies → c'.GoodBodies

namespace Checks

variable {keys keys' owns owns' : List Nat} {c c₁ c₂ : Checker}

theorem trans (h₁ : Checks keys owns c c₁) (h₂ : Checks keys owns' c₁ c₂) :
    Checks keys (owns ++ owns') c c₂ where
  grows := h₁.grows.trans h₂.grows
  pending i hp := by
    obtain ⟨hp₁, hn₂⟩ := h₂.pending i hp
    obtain ⟨hp₀, hn₁⟩ := h₁.pending i hp₁
    exact ⟨hp₀, by simp [hn₁, hn₂]⟩
  good hq hg :=
    h₂.good (hq.right h₁.grows.diagnostics h₂.grows.diagnostics)
      (h₁.good (hq.left h₁.grows.diagnostics h₂.grows.diagnostics) hg)

theorem mono (h : Checks keys owns c c₁) (hk : ∀ k ∈ keys, k ∈ keys')
    (ho : ∀ i ∈ owns', i ∈ owns) : Checks keys' owns' c c₁ where
  grows := h.grows.mono hk
  pending i hp := ⟨(h.pending i hp).1, fun hi => (h.pending i hp).2 (ho i hi)⟩
  good := h.good

theorem of_grows (h : c.Grows keys c₁) (hf : c₁.functions = c.functions) : Checks keys [] c c₁ where
  grows := h
  pending i hp := ⟨by unfold Checker.Pending at *; rwa [hf] at hp, List.not_mem_nil⟩
  good _ hg := by unfold Checker.GoodBodies at *; rwa [hf]

theorem of_declares (h : c.Declares c₁) : Checks keys [] c c₁ := by
  obtain ⟨scopes, ds, rfl, -⟩ := h
  exact of_grows (.of_scopes c scopes ds) rfl

theorem scopes (c : Checker) (scopes : Scopes) : Checks keys [] c { c with scopes := scopes } :=
  of_grows (.scopes c scopes) rfl

end Checks

/-- Entering a scope for statements `ss` from `c` gives `c'`: their names are hoisted, and each
function numbered on the way is pending until a statement of `ss` that owns it is checked. -/
structure Opens (ss : List Stmt) (c c' : Checker) : Prop where
  grows : c.Grows (ss.flatMap Stmt.hoistStarts) c'
  pending : (ss.flatMap Stmt.hoistStarts).Nodup → ∀ i, c'.Pending i →
    c.Pending i ∨ ∃ s ∈ ss, i ∈ ownFunctions c' s
  good : c.GoodBodies → c'.GoodBodies

theorem Hoisted.opens {ss : List Stmt} {c c' : Checker} (h : Hoisted ss c c') : Opens ss c c' where
  grows :=
    { diagnostics := h.diagnostics
      functions i f hf := by
        have hi : i < c.functions.size := (Array.getElem?_eq_some_iff.mp hf).1
        exact ⟨f.body, by rw [h.old_functions i hi, hf], fun hb => hb⟩
      structs := h.structs
      hoistedFunctions := h.hoistedFunctions
      hoistedStructs := h.hoistedStructs
      valid := h.valid }
  pending hnd i hp := by
    obtain ⟨f, hf, hfb⟩ := hp
    by_cases hi : i < c.functions.size
    · exact .inl ⟨f, by rw [← h.old_functions i hi, hf], hfb⟩
    · exact .inr (h.owned hnd i (by omega) (Array.getElem?_eq_some_iff.mp hf).1)
  good hg i f b hf hb hr := by
    by_cases hi : i < c.functions.size
    · exact hg i f b (by rw [← h.old_functions i hi, hf]) hb hr
    · rw [h.new_functions i f (by omega) hf] at hb
      cases hb

theorem Opens.close {ss : List Stmt} {keys owns : List Nat} {c c₁ c₂ : Checker} (h : Opens ss c c₁)
    (hnd : (ss.flatMap Stmt.hoistStarts).Nodup) (hc : Checks keys owns c₁ c₂)
    (howns : ∀ s ∈ ss, ∀ i ∈ ownFunctions c₁ s, i ∈ owns) :
    Checks (ss.flatMap Stmt.hoistStarts ++ keys) [] c c₂ where
  grows := (h.grows.mono fun k hk => List.mem_append_left _ hk).trans
    (hc.grows.mono fun k hk => List.mem_append_right _ hk)
  pending i hp := by
    obtain ⟨hp₁, hn⟩ := hc.pending i hp
    rcases h.pending hnd i hp₁ with hp₀ | ⟨s, hs, hi⟩
    · exact ⟨hp₀, List.not_mem_nil⟩
    · exact absurd (howns s hs i hi) hn
  good hq hg :=
    hc.good (hq.right h.grows.diagnostics hc.grows.diagnostics) (h.good hg)

theorem Checker.currentFunction?_eq {c c' : Checker} (h : c'.kinds = c.kinds) :
    c'.scopes.currentFunction? = c.scopes.currentFunction? :=
  Scopes.currentFunction?_eq_of_kinds h

theorem pushScope_run (k : ScopeKind) (c : Checker) :
    (pushScope k).run c = ((), { c with scopes := c.scopes.push k }) := rfl

theorem popScope_run (c : Checker) :
    popScope.run c = (c.scopes.pop.1, { c with scopes := c.scopes.pop.2 }) := rfl

theorem Checker.kinds_pop (c : Checker) :
    ({ c with scopes := c.scopes.pop.2 } : Checker).kinds = c.kinds.tail := by
  unfold Checker.kinds
  cases c.scopes <;> rfl

theorem enterScope_run (k : ScopeKind) (ss : List Stmt) (c : Checker) :
    ((enterScope k ss).run c).2 =
      { ((hoist ss).run { c with scopes := c.scopes.push k }).2 with
        scopes := ((hoist ss).run { c with scopes := c.scopes.push k }).2.scopes.reserve
          (declaredVariables ss) } := rfl

theorem enterScope_opens (k : ScopeKind) (ss : List Stmt) (c : Checker) :
    Opens ss c ((enterScope k ss).run c).2 := by
  have h := (hoist_hoisted ss { c with scopes := c.scopes.push k }).opens
  rw [enterScope_run]
  exact ⟨(Checker.Grows.scopes c _).trans (h.grows.trans (.scopes _ _)), h.pending, h.good⟩

theorem enterScope_kinds (k : ScopeKind) (ss : List Stmt) (c : Checker) :
    ((enterScope k ss).run c).2.kinds = k :: c.kinds := by
  rw [enterScope_run]
  exact (Scopes.reserve_kinds _ _).trans (hoist_hoisted ss _).kinds

theorem setBody_run (fn : Nat) (b : Typed.Block) (c : Checker) :
    ((setBody fn b).run c).2 =
      { c with functions := c.functions.modify fn fun f => { f with body := some b } } := rfl

theorem setBody_grows {keys : List Nat} (fn : Nat) (b : Typed.Block) (c : Checker) :
    c.Grows keys ((setBody fn b).run c).2 := by
  rw [setBody_run]
  refine ⟨Nat.le_refl _, fun i f hf => ?_, fun _ _ h => h, ⟨[], rfl, List.forall_mem_nil _⟩, ⟨[], rfl, List.forall_mem_nil _⟩,
    fun hv => hv.modify_function _ _⟩
  rw [Array.getElem?_modify, hf]
  split
  · exact ⟨some b, rfl, fun h => absurd h (Option.some_ne_none b)⟩
  · exact ⟨f.body, rfl, id⟩

theorem setBody_pending {fn i : Nat} {b : Typed.Block} {c : Checker}
    (hp : ((setBody fn b).run c).2.Pending i) : c.Pending i ∧ i ≠ fn := by
  rw [setBody_run] at hp
  obtain ⟨f, hf, hfb⟩ := hp
  rw [Array.getElem?_modify] at hf
  split at hf
  · obtain ⟨g, -, rfl⟩ := Option.map_eq_some_iff.mp hf
    cases hfb
  · exact ⟨⟨f, hf, hfb⟩, Ne.symm ‹_›⟩

theorem setBody_good {fn : Nat} {b : Typed.Block} {c : Checker} (hg : c.GoodBodies)
    (hb : ∀ f, c.functions[fn]? = some f → f.result.isVoid = false → b.ReturnsValue) :
    ((setBody fn b).run c).2.GoodBodies := by
  rw [setBody_run]
  intro i f b' hf hfb hr
  rw [Array.getElem?_modify] at hf
  split at hf
  · subst_vars
    obtain ⟨g, hg', rfl⟩ := Option.map_eq_some_iff.mp hf
    cases hfb
    exact hb g hg' hr
  · exact hg i f b' hf hfb hr

theorem Returning.of_noBare {ts : List Typed.Stmt} (h : ∀ t ∈ ts, t.NoBareReturn) :
    Returning false ts :=
  ⟨h, fun ha => absurd ha Bool.false_ne_true⟩

theorem Returning.nil : Returning false [] :=
  .of_noBare (List.forall_mem_nil _)

theorem Returning.block {always : Bool} {ss : List Typed.Stmt} (h : Returning always ss)
    (slots : Nat) (span : Span) : Returning always [.block ⟨ss, slots, span⟩ span] := by
  refine ⟨fun t ht => ?_, fun ha => ?_⟩
  · rw [List.mem_singleton.mp ht]
    exact .block h.1
  · obtain ⟨t, ht, hr⟩ := h.2 ha
    exact ⟨_, List.mem_singleton_self _, .block ht hr⟩

/-- A check from `c` to `c'` as `Checks` says, which leaves the kinds of the scopes as it found
them and whose output satisfies `out` when it adds no diagnostic inside a function with a
result. -/
structure Checked (keys owns : List Nat) (c c' : Checker) (out : Prop) : Prop
    extends Checks keys owns c c' where
  kinds : c'.kinds = c.kinds
  returning : c.Quiet c' → c.MustValue → out

theorem ScopeKind.block_ne_function (fn : Nat) : ScopeKind.block ≠ .function fn := by
  simp

theorem Scopes.currentFunction?_push {k : ScopeKind} (hk : ∀ fn, k ≠ .function fn) (ss : Scopes) :
    (ss.push k).currentFunction? = ss.currentFunction? := by
  cases k with
  | function fn => exact absurd rfl (hk fn)
  | _ => rfl

namespace Checked

variable {keys keys' owns owns' : List Nat} {c c₁ c₂ : Checker} {out out' : Prop}

theorem mono (h : Checked keys owns c c₁ out) (hk : ∀ k ∈ keys, k ∈ keys')
    (ho : ∀ i ∈ owns', i ∈ owns) (hout : out → out') : Checked keys' owns' c c₁ out' :=
  { h.toChecks.mono hk ho with
    kinds := h.kinds
    returning := fun hq hm => hout (h.returning hq hm) }

theorem close {ss : List Stmt} {k : ScopeKind} (ho : Opens ss c c₁)
    (hk : c₁.kinds = k :: c.kinds) (hfn : ∀ fn, k ≠ .function fn)
    (hnd : (ss.flatMap Stmt.hoistStarts).Nodup) (hs : Checked keys owns c₁ c₂ out)
    (howns : ∀ s ∈ ss, ∀ i ∈ ownFunctions c₁ s, i ∈ owns) :
    Checked (ss.flatMap Stmt.hoistStarts ++ keys) [] c { c₂ with scopes := c₂.scopes.pop.2 } out where
  toChecks := (ho.close hnd hs.toChecks howns).trans (Checks.scopes c₂ _)
  kinds := by rw [Checker.kinds_pop, hs.kinds, hk]; rfl
  returning hq hm := by
    have hcur : c₁.scopes.currentFunction? = c.scopes.currentFunction? :=
      (Scopes.currentFunction?_eq_of_kinds
        (show c₁.scopes.map (·.kind) = (c.scopes.push k).map (·.kind) from hk)).trans
        (Scopes.currentFunction?_push hfn _)
    exact hs.returning (hq.right ho.grows.diagnostics hs.grows.diagnostics)
      (hm.of_grows ho.grows hcur)

end Checked

theorem get_run (c : Checker) : (get : CheckM Checker).run c = (c, c) := rfl

theorem functionInfo_run (fn : Nat) (c : Checker) :
    (functionInfo fn).run c = (c.functions[fn]?.getD default, c) := rfl

theorem structInfo_run (sid : Nat) (c : Checker) :
    (structInfo sid).run c = (c.structs[sid]?.getD default, c) := rfl

theorem Checker.Declares.functions {c c' : Checker} (h : c.Declares c') :
    c'.functions = c.functions := by
  obtain ⟨scopes, ds, rfl, -⟩ := h
  rfl

theorem Checked.of_declares {keys : List Nat} {c c' : Checker} {out : Prop} (h : c.Declares c')
    (hout : c.Quiet c' → c.MustValue → out) : Checked keys [] c c' out :=
  { Checks.of_declares h with
    kinds := h.kinds
    returning := hout }

theorem report_adds (span : Span) (message : String) (c : Checker) :
    c.Adds ((report span message).run c).2 := ⟨#[_], rfl⟩

theorem report_loud (span : Span) (message : String) (c : Checker) :
    ¬ c.Quiet ((report span message).run c).2 := by
  simp [Checker.Quiet, report_run]

theorem report_after {c c₁ : Checker} (h : c.Adds c₁) (span : Span) (message : String) {P : Prop} :
    c.Adds ((report span message).run c₁).2 ∧ (c.Quiet ((report span message).run c₁).2 → P) :=
  ⟨h.trans (report_adds _ _ _), fun hq =>
    absurd (hq.right h.size_le (report_adds _ _ _).size_le) (report_loud _ _ _)⟩

namespace Checked

variable {keys owns owns' : List Nat} {c c₁ c₂ : Checker} {out out' out'' : Prop}

theorem trans (h₁ : Checked keys owns c c₁ out) (h₂ : Checked keys owns' c₁ c₂ out')
    (hout : out → out' → out'') : Checked keys (owns ++ owns') c c₂ out'' :=
  { h₁.toChecks.trans h₂.toChecks with
    kinds := h₂.kinds.trans h₁.kinds
    returning := fun hq hm => hout
      (h₁.returning (hq.left h₁.grows.diagnostics h₂.grows.diagnostics) hm)
      (h₂.returning (hq.right h₁.grows.diagnostics h₂.grows.diagnostics)
        (hm.of_grows h₁.grows (Checker.currentFunction?_eq h₁.kinds))) }

end Checked

theorem Returning.singleton {always : Bool} {t : Typed.Stmt} :
    Returning always [t] ↔ t.NoBareReturn ∧ (always = true → t.Returns) := by
  simp [Returning]

theorem Returning.append {a b : Bool} {ts ts' : List Typed.Stmt} (h : Returning a ts)
    (h' : Returning b ts') : Returning (a || b) (ts ++ ts') := by
  refine ⟨fun t ht => ?_, fun hab => ?_⟩
  · rcases List.mem_append.mp ht with ht | ht
    exacts [h.1 t ht, h'.1 t ht]
  · rcases Bool.or_eq_true_iff.mp hab with ha | hb
    · obtain ⟨t, ht, hr⟩ := h.2 ha
      exact ⟨t, List.mem_append_left _ ht, hr⟩
    · obtain ⟨t, ht, hr⟩ := h'.2 hb
      exact ⟨t, List.mem_append_right _ ht, hr⟩

theorem ownFunctions_grows {keys : List Nat} {c c₁ : Checker} (h : c.Grows keys c₁) {s : Stmt}
    (hk : ∀ k ∈ s.hoistStarts, k ∉ keys) : ∀ i ∈ ownFunctions c s, i ∈ ownFunctions c₁ s := by
  intro i hi
  cases s with
  | fnDecl d _ =>
    have hd := hk d.name.span.start (by simp [Stmt.hoistStarts])
    simpa [ownFunctions, lookup_grows h.hoistedFunctions hd] using hi
  | structDecl d _ =>
    have hd := hk d.name.span.start (by simp [Stmt.hoistStarts])
    simp only [ownFunctions, methodNumbers, lookup_grows h.hoistedStructs hd] at hi ⊢
    split at hi
    · rename_i sid _
      cases hs : c.structs[sid]? with
      | none =>
        rw [hs, Option.getD_none, show (default : StructInfo).methods = [] from rfl] at hi
        simp at hi
      | some info => rwa [h.structs sid info hs, ← hs]
    · cases hi
  | _ => cases hi

theorem forIn_declares {α : Type} {xs : List α} {f : α → PUnit → CheckM (ForInStep PUnit)}
    (hf : ∀ a c, ((f a ⟨⟩).run c).1 = .yield ⟨⟩ ∧ c.Declares ((f a ⟨⟩).run c).2) (c : Checker) :
    c.Declares ((forIn xs ⟨⟩ f).run c).2 :=
  forIn_run_inv (fun _ _ c' => c.Declares c')
    (fun _ a _ _ c' _ h => ⟨⟨⟩, (hf a c').1, h.trans (hf a c').2⟩) xs [] ⟨⟩ c rfl (.refl c)

theorem run_bind_of {α β : Type} {x : CheckM α} {f : α → CheckM β} {c : Checker}
    {P : β × Checker → Prop} (Q : α × Checker → Prop) (hx : Q (x.run c))
    (hf : ∀ a c', Q (a, c') → P ((f a).run c')) : P ((x >>= f).run c) := by
  rw [run_bind]
  exact hf _ _ hx

theorem Checks.setBody_of {keys owns : List Nat} {c c₁ : Checker} (h : Checks keys owns c c₁)
    {fn : Nat} {b : Typed.Block}
    (hb : c.Quiet ((setBody fn b).run c₁).2 →
      ∀ f, c₁.functions[fn]? = some f → f.result.isVoid = false → b.ReturnsValue) :
    Checks keys (owns ++ [fn]) c ((setBody fn b).run c₁).2 where
  grows := h.grows.trans (setBody_grows fn b c₁)
  pending i hp := by
    obtain ⟨hp₁, hne⟩ := setBody_pending hp
    obtain ⟨hp₀, hn⟩ := h.pending i hp₁
    exact ⟨hp₀, by simp [hn, hne]⟩
  good hq hg := setBody_good (h.good (by rw [setBody_run] at hq; exact hq) hg) (hb hq)

theorem Checker.initial_valid : Checker.initial.Valid where
  hoistedFunctions _ h := absurd h List.not_mem_nil
  methods _ _ h := by simp [Checker.initial] at h

end Sigh.Typing
