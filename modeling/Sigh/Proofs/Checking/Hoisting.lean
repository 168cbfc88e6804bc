import Sigh.Proofs.Checking.Reports
import Sigh.Proofs.Grammar.Declarations
namespace Sigh

/-- The struct that a statement declares. -/
def Stmt.structDecl? : Stmt → Option StructDecl
  | .structDecl d _ => some d
  | _ => none

/-- The function that a statement declares. -/
def Stmt.fnDecl? : Stmt → Option FunDecl
  | .fnDecl d _ => some d
  | _ => none

/-- Where the names that a scope declares for the statement start when it is entered: a
function's, or a struct's and its methods'. -/
def Stmt.hoistStarts : Stmt → List Nat
  | .fnDecl d _ => [d.name.span.start]
  | .structDecl d _ => d.name.span.start :: d.methods.map (·.name.span.start)
  | _ => []

/-- Where the names declared in the scopes that checking the statement opens start. -/
def Stmt.innerStarts : Stmt → List Nat
  | .block body _ => Stmt.listDeclStarts body
  | .fnDecl d _ => Stmt.listDeclStarts d.body
  | .structDecl d _ => d.methods.flatMap (Stmt.listDeclStarts ·.body)
  | .ifElse _ thenBranch elseBranch _ => thenBranch.declStarts ++ Stmt.optionDeclStarts elseBranch
  | .whileLoop _ body _ => body.declStarts
  | _ => []

theorem FunDecl.listDeclStarts_perm (ms : List FunDecl) :
    (FunDecl.listDeclStarts ms).Perm
      (ms.map (·.name.span.start) ++ ms.flatMap (Stmt.listDeclStarts ·.body)) := by
  induction ms with
  | nil => rfl
  | cons m ms ih =>
    obtain ⟨name, params, result, body, bodySpan⟩ := m
    simp only [FunDecl.listDeclStarts, FunDecl.declStarts, List.map_cons, List.flatMap_cons,
      List.cons_append]
    exact ((ih.append_left _).trans (List.perm_append_comm_assoc _ _ _)).cons _

theorem Stmt.declStarts_perm (s : Stmt) : s.declStarts.Perm (s.hoistStarts ++ s.innerStarts) := by
  cases s with
  | fnDecl d _ => obtain ⟨name, params, result, body, bodySpan⟩ := d; rfl
  | structDecl d _ =>
    obtain ⟨name, fields, methods⟩ := d
    exact (FunDecl.listDeclStarts_perm methods).cons _
  | _ => simp [Stmt.declStarts, Stmt.hoistStarts, Stmt.innerStarts]

theorem Stmt.listDeclStarts_perm (ss : List Stmt) :
    (Stmt.listDeclStarts ss).Perm (ss.flatMap Stmt.hoistStarts ++ ss.flatMap Stmt.innerStarts) := by
  induction ss with
  | nil => rfl
  | cons s ss ih =>
    rw [Stmt.listDeclStarts, List.flatMap_cons, List.flatMap_cons]
    refine ((s.declStarts_perm.append ih).trans ?_)
    simp only [List.append_assoc]
    exact List.Perm.append_left _ (List.perm_append_comm_assoc _ _ _)

theorem Stmt.nodup_hoistStarts {ss : List Stmt} (h : (Stmt.listDeclStarts ss).Nodup) :
    (ss.flatMap Stmt.hoistStarts).Nodup :=
  ((Stmt.listDeclStarts_perm ss).nodup_iff.mp h).sublist (List.sublist_append_left _ _)

theorem Stmt.mem_listDeclStarts {ss : List Stmt} {k : Nat}
    (h : k ∈ ss.flatMap Stmt.hoistStarts ++ ss.flatMap Stmt.innerStarts) :
    k ∈ Stmt.listDeclStarts ss :=
  (Stmt.listDeclStarts_perm ss).mem_iff.mpr h

theorem FunDecl.nodup_bodies {ms : List FunDecl} (h : (FunDecl.listDeclStarts ms).Nodup) :
    ∀ m ∈ ms, (Stmt.listDeclStarts m.body).Nodup :=
  (List.nodup_flatMap.mp (((FunDecl.listDeclStarts_perm ms).nodup_iff.mp h).sublist
    (List.sublist_append_right _ _))).1

end Sigh

namespace Sigh.Typing

/-- The kinds of the scopes in force, innermost first. -/
def Checker.kinds (c : Checker) : List ScopeKind := c.scopes.map (·.kind)

theorem Scope.insert_kind {s s' : Scope} {name : String} {d : Declaration}
    (h : s.insert name d = some s') : s'.kind = s.kind := by
  unfold Scope.insert at h
  split at h
  · cases h
  · cases h; rfl

theorem Scopes.declare_kinds {ss ss' : Scopes} {name : String} {d : Declaration}
    (h : ss.declare name d = some ss') : ss'.map (·.kind) = ss.map (·.kind) := by
  cases ss with
  | nil => cases h
  | cons s rest =>
    obtain ⟨s', hs, rfl⟩ := Option.map_eq_some_iff.mp h
    simp [Scope.insert_kind hs]

theorem Scopes.declareVariable_kinds {ss ss' : Scopes} {name : String} {ty : Ty} {slot : Nat}
    (h : ss.declareVariable name ty = some (slot, ss')) : ss'.map (·.kind) = ss.map (·.kind) := by
  cases ss with
  | nil => cases h
  | cons s rest =>
    obtain ⟨s', hs, h⟩ := Option.map_eq_some_iff.mp h
    cases h
    simp [Scope.insert_kind hs]

theorem Scopes.reserve_kinds (ss : Scopes) (names : List String) :
    (ss.reserve names).map (·.kind) = ss.map (·.kind) := by
  cases ss <;> rfl

/-- `c'` is `c` with the scopes changed but not their kinds, and diagnostics added. -/
def Checker.Declares (c c' : Checker) : Prop :=
  ∃ (scopes : Scopes) (ds : Array Diagnostic),
    c' = { c with scopes := scopes, diagnostics := c.diagnostics ++ ds } ∧
      scopes.map (·.kind) = c.kinds

namespace Checker.Declares

theorem refl (c : Checker) : c.Declares c := ⟨c.scopes, #[], by simp, rfl⟩

theorem trans {c₁ c₂ c₃ : Checker} (h₁ : c₁.Declares c₂) (h₂ : c₂.Declares c₃) :
    c₁.Declares c₃ := by
  obtain ⟨s₁, ds₁, rfl, hk₁⟩ := h₁
  obtain ⟨s₂, ds₂, rfl, hk₂⟩ := h₂
  exact ⟨s₂, ds₁ ++ ds₂, by simp [Array.append_assoc], hk₂.trans hk₁⟩

theorem of_adds {c c' : Checker} (h : c.Adds c') : c.Declares c' := by
  obtain ⟨ds, rfl⟩ := h
  exact ⟨c.scopes, ds, rfl, rfl⟩

theorem kinds {c c' : Checker} (h : c.Declares c') : c'.kinds = c.kinds := by
  obtain ⟨s, ds, rfl, hk⟩ := h
  exact hk

theorem size_le {c c' : Checker} (h : c.Declares c') :
    c.diagnostics.size ≤ c'.diagnostics.size := by
  obtain ⟨s, ds, rfl, hk⟩ := h
  simp

end Checker.Declares

theorem declare_declares (name : Ident) (d : Declaration) (c : Checker) :
    c.Declares ((declare name d).run c).2 := by
  unfold declare
  simp only [run_bind]
  split
  next ss h => exact ⟨ss, #[], by simp; rfl, Scopes.declare_kinds h⟩
  · exact .of_adds ⟨#[_], rfl⟩

theorem declareVariable_declares (name : Ident) (ty : Ty) (c : Checker) :
    c.Declares ((declareVariable name ty).run c).2 := by
  unfold declareVariable
  simp only [run_bind]
  split
  next slot ss h => exact ⟨ss, #[], by simp; rfl, Scopes.declareVariable_kinds h⟩
  · have hr : c.Declares ((report name.span ("redeclaration of " ++ name.name ++
        " in the same scope")).run c).2 := .of_adds ⟨#[_], rfl⟩
    refine hr.trans ?_
    simp only [run_bind]
    split
    next slot ss h => exact ⟨ss, #[], by simp; rfl, Scopes.declareVariable_kinds h⟩
    · exact .refl _

theorem Quietly.bind_trivial {α β : Type} {x : CheckM α} {f : α → CheckM β}
    (hx : Quietly (fun _ => True) x) (hf : ∀ a, Quietly (fun _ => True) (f a)) :
    Quietly (fun _ => True) (x >>= f) :=
  hx.bind fun a => (hf a).mono fun _ _ _ => trivial

theorem Quietly.mapM_trivial {α β : Type} {f : α → CheckM β}
    (hf : ∀ a, Quietly (fun _ => True) (f a)) :
    ∀ xs : List α, Quietly (fun _ => True) (xs.mapM f)
  | [] => Quietly.pure trivial
  | a :: xs => by
    rw [List.mapM_cons]
    exact (hf a).bind_trivial fun _ =>
      (Quietly.mapM_trivial hf xs).bind_trivial fun _ => Quietly.pure trivial

theorem resolveType_adds (t : TypeExpr) : Quietly (fun _ => True) (resolveType t) :=
  (resolveType_quietly t).mono fun _ _ => trivial

theorem resolveBinding_adds (b : Binding) (fallback : Ty) :
    Quietly (fun _ => True)
      (do pure (b.name.name, (← resolveType b.type).getD fallback) : CheckM (String × Ty)) :=
  (resolveType_adds b.type).bind_trivial fun _ => Quietly.pure trivial

theorem allocateFunction_run (d : FunDecl) (owner : Option Nat) (c : Checker) :
    (allocateFunction d owner).run c = (c.functions.size, { c with
      functions := c.functions.push ⟨d.name.name, [], .void, owner, d.name.span, none⟩ }) := rfl

theorem modify_run (f : Checker → Checker) (c : Checker) :
    (modify f : CheckM Unit).run c = ((), f c) := rfl

theorem resolveSignature_run (d : FunDecl) (fn : Nat) (c : Checker) :
    ∃ c₁ params result, c.Adds c₁ ∧ ((resolveSignature d fn).run c).2 =
      { c₁ with functions := c₁.functions.modify fn fun f =>
          { f with params := params, result := result } } := by
  unfold resolveSignature
  simp only [run_bind]
  have hparams := fun b => resolveBinding_adds b .null
  split
  · exact ⟨_, _, _, ((Quietly.mapM_trivial hparams d.params) c).1.trans
      ((resolveType_adds _) _).1, rfl⟩
  · exact ⟨_, _, _, ((Quietly.mapM_trivial hparams d.params) c).1, rfl⟩

section Loops

variable {α σ : Type} {xs : List α} {f : α → σ → CheckM (ForInStep σ)}

theorem forIn_run_inv (I : List α → σ → Checker → Prop)
    (hstep : ∀ done a rest acc c, done ++ a :: rest = xs → I done acc c →
      ∃ acc', ((f a acc).run c).1 = .yield acc' ∧ I (done ++ [a]) acc' ((f a acc).run c).2) :
    ∀ rest done acc c, done ++ rest = xs → I done acc c →
      I xs ((forIn rest acc f).run c).1 ((forIn rest acc f).run c).2 := by
  intro rest
  induction rest with
  | nil =>
    intro done acc c h hI
    rw [List.append_nil] at h
    subst h
    exact hI
  | cons a rest ih =>
    intro done acc c h hI
    obtain ⟨acc', hyield, hI'⟩ := hstep done a rest acc c h hI
    rw [List.forIn_cons, run_bind, hyield]
    exact ih (done ++ [a]) acc' _ (by simp [← h]) hI'

theorem run_forIn_bind {β : Type} {init : σ} {k : σ → CheckM β} {c : Checker}
    {Q : β × Checker → Prop} (I : List α → σ → Checker → Prop) (hinit : I [] init c)
    (hstep : ∀ done a rest acc c, done ++ a :: rest = xs → I done acc c →
      ∃ acc', ((f a acc).run c).1 = .yield acc' ∧ I (done ++ [a]) acc' ((f a acc).run c).2)
    (hk : ∀ acc c, I xs acc c → Q ((k acc).run c)) : Q ((forIn xs init f >>= k).run c) := by
  rw [run_bind]
  exact hk _ _ (forIn_run_inv I hstep xs [] init c rfl hinit)

end Loops

/-- The numbers of the methods of struct `d` that checking it gives a body, as hoisting recorded
them in `c`. -/
def methodNumbers (c : Checker) (d : StructDecl) : List Nat :=
  match c.hoistedStructs.lookup d.name.span.start with
  | some id => ((c.structs[id]?.getD default).methods.map (·.2)).take d.methods.length
  | none => []

/-- The functions that checking the statement gives a body, by the numbers that hoisting gave
them in `c`: a function's own, or a struct's methods. -/
def ownFunctions (c : Checker) : Stmt → List Nat
  | .fnDecl d _ => (c.hoistedFunctions.lookup d.name.span.start).toList
  | .structDecl d _ => methodNumbers c d
  | _ => []

/-- The key and number of a hoisted declaration. -/
def hoistEntry {δ : Type} (name : δ → Ident) (p : δ × Nat) : Nat × Nat :=
  ((name p.1).span.start, p.2)

/-- Every function number that a hoisted name or a struct's list of methods gives is in range. -/
structure Checker.Valid (c : Checker) : Prop where
  hoistedFunctions : ∀ e ∈ c.hoistedFunctions, e.2 < c.functions.size
  methods : ∀ (i : Nat) (s : StructInfo), c.structs[i]? = some s →
    ∀ m ∈ s.methods, m.2 < c.functions.size

namespace Checker.Valid

variable {c : Checker}

theorem of_le (h : c.Valid) {c' : Checker} (hf : c'.hoistedFunctions = c.hoistedFunctions)
    (hs : c'.structs = c.structs) (hle : c.functions.size ≤ c'.functions.size) : c'.Valid where
  hoistedFunctions e he := Nat.lt_of_lt_of_le (h.hoistedFunctions e (hf ▸ he)) hle
  methods i s hi m hm := Nat.lt_of_lt_of_le (h.methods i s (hs ▸ hi) m hm) hle

theorem declares (h : c.Valid) {c' : Checker} (hc : c.Declares c') : c'.Valid := by
  obtain ⟨scopes, ds, rfl, -⟩ := hc
  exact h.of_le rfl rfl (Nat.le_refl _)

theorem push_function (h : c.Valid) (info : FunctionInfo) (key : Nat) :
    Checker.Valid { c with
      functions := c.functions.push info
      hoistedFunctions := (key, c.functions.size) :: c.hoistedFunctions } where
  hoistedFunctions e he := by
    rcases List.mem_cons.mp he with rfl | he
    · simp
    · simpa using Nat.lt_succ_of_lt (h.hoistedFunctions e he)
  methods i s hi m hm := by simpa using Nat.lt_succ_of_lt (h.methods i s hi m hm)

theorem modify_function (h : c.Valid) (fn : Nat) (g : FunctionInfo → FunctionInfo) :
    Checker.Valid { c with functions := c.functions.modify fn g } :=
  h.of_le rfl rfl (by simp)

theorem modify_struct (h : c.Valid) (sid : Nat) (g : StructInfo → StructInfo)
    (hg : ∀ s, ∀ m ∈ (g s).methods, m ∈ s.methods ∨ m.2 < c.functions.size) :
    Checker.Valid { c with structs := c.structs.modify sid g } where
  hoistedFunctions := h.hoistedFunctions
  methods i s hi m hm := by
    rw [Array.getElem?_modify] at hi
    split at hi
    · obtain ⟨s₀, hs₀, rfl⟩ := Option.map_eq_some_iff.mp hi
      rcases hg s₀ m hm with hm | hm
      · exact h.methods i s₀ hs₀ m hm
      · exact hm
    · exact h.methods i s hi m hm

theorem push_struct (h : c.Valid) (name : String) (entry : Nat × Nat) :
    Checker.Valid { c with
      structs := c.structs.push ⟨name, [], []⟩
      hoistedStructs := entry :: c.hoistedStructs } where
  hoistedFunctions := h.hoistedFunctions
  methods i s hi m hm := by
    rw [Array.getElem?_push] at hi
    split at hi
    · cases hi
      cases hm
    · exact h.methods i s hi m hm

end Checker.Valid

/-- The state after the first pass of hoisting over `done`, which numbers structs and
functions in order from where `c` left off. -/
structure HoistsDecls (c : Checker) (done : List Stmt)
    (acc : Array (StructDecl × Nat) × Array (FunDecl × Nat)) (c' : Checker) : Prop where
  structs_acc : acc.1.toList = (done.filterMap Stmt.structDecl?).zipIdx c.structs.size
  functions_acc : acc.2.toList = (done.filterMap Stmt.fnDecl?).zipIdx c.functions.size
  structs_size : c'.structs.size = c.structs.size + acc.1.size
  old_structs : ∀ i < c.structs.size, c'.structs[i]? = c.structs[i]?
  new_structs : ∀ p ∈ acc.1.toList, c'.structs[p.2]? = some ⟨p.1.name.name, [], []⟩
  functions_size : c'.functions.size = c.functions.size + acc.2.size
  old_functions : ∀ i < c.functions.size, c'.functions[i]? = c.functions[i]?
  new_functions : ∀ i f, c.functions.size ≤ i → c'.functions[i]? = some f → f.body = none
  hoistedStructs :
    c'.hoistedStructs = (acc.1.toList.map (hoistEntry (·.name))).reverse ++ c.hoistedStructs
  hoistedFunctions :
    c'.hoistedFunctions = (acc.2.toList.map (hoistEntry (·.name))).reverse ++ c.hoistedFunctions
  kinds : c'.kinds = c.kinds
  diagnostics : c.diagnostics.size ≤ c'.diagnostics.size
  valid : c.Valid → c'.Valid

namespace HoistsDecls

variable {c c' : Checker} {done : List Stmt} {acc : Array (StructDecl × Nat) × Array (FunDecl × Nat)}

theorem start (c : Checker) : HoistsDecls c [] (#[], #[]) c where
  structs_acc := rfl
  functions_acc := rfl
  structs_size := rfl
  old_structs _ _ := rfl
  new_structs _ h := absurd h List.not_mem_nil
  functions_size := rfl
  old_functions _ _ := rfl
  new_functions i f hi h := by simp [Array.getElem?_eq_none hi] at h
  hoistedStructs := rfl
  hoistedFunctions := rfl
  kinds := rfl
  diagnostics := Nat.le_refl _
  valid := id

theorem struct_lt (h : HoistsDecls c done acc c') {p : StructDecl × Nat} (hp : p ∈ acc.1.toList) :
    p.2 < c'.structs.size := by
  rw [h.structs_acc] at hp
  have := (List.mem_zipIdx hp).2.1
  have hsize : acc.1.size = (done.filterMap Stmt.structDecl?).length := by
    rw [← Array.length_toList, h.structs_acc, List.length_zipIdx]
  rw [h.structs_size, hsize]
  exact this

theorem structDecl (h : HoistsDecls c done acc c') (d : StructDecl) (span : Span)
    {next : Checker}
    (hc : Checker.Declares { c' with
      structs := c'.structs.push ⟨d.name.name, [], []⟩
      hoistedStructs := (d.name.span.start, c'.structs.size) :: c'.hoistedStructs } next) :
    HoistsDecls c (done ++ [.structDecl d span]) (acc.1.push (d, c'.structs.size), acc.2) next := by
  have hv := fun hv => ((h.valid hv).push_struct d.name.name _).declares hc
  obtain ⟨scopes, ds, rfl, hk⟩ := hc
  have hsize : acc.1.size = (done.filterMap Stmt.structDecl?).length := by
    rw [← Array.length_toList, h.structs_acc, List.length_zipIdx]
  refine ⟨?_, ?_, ?_, ?_, ?_, h.functions_size, h.old_functions, h.new_functions, ?_,
    h.hoistedFunctions, hk.trans h.kinds, ?_, hv⟩
  · simp [h.structs_acc, List.filterMap_append, Stmt.structDecl?, List.zipIdx_append,
      h.structs_size, hsize]
  · simp [h.functions_acc, List.filterMap_append, List.filterMap_cons, Stmt.fnDecl?]
  · simp only [Array.size_push, h.structs_size]
    omega
  · intro i hi
    rw [Array.getElem?_push, if_neg (by rw [h.structs_size]; omega)]
    exact h.old_structs i hi
  · intro p hp
    rw [Array.toList_push, List.mem_append, List.mem_singleton] at hp
    rcases hp with hp | rfl
    · rw [Array.getElem?_push, if_neg (Nat.ne_of_lt (h.struct_lt hp))]
      exact h.new_structs p hp
    · simp
  · simp [h.hoistedStructs, hoistEntry]
  · have := h.diagnostics
    simp only [Array.size_append]
    omega

theorem fnDecl (h : HoistsDecls c done acc c') (d : FunDecl) (span : Span) {next : Checker}
    (hc : Checker.Declares { c' with
      functions := c'.functions.push ⟨d.name.name, [], .void, none, d.name.span, none⟩
      hoistedFunctions := (d.name.span.start, c'.functions.size) :: c'.hoistedFunctions } next) :
    HoistsDecls c (done ++ [.fnDecl d span]) (acc.1, acc.2.push (d, c'.functions.size)) next := by
  have hv := fun hv => ((h.valid hv).push_function _ _).declares hc
  obtain ⟨scopes, ds, rfl, hk⟩ := hc
  have hsize : acc.2.size = (done.filterMap Stmt.fnDecl?).length := by
    rw [← Array.length_toList, h.functions_acc, List.length_zipIdx]
  refine ⟨?_, ?_, h.structs_size, h.old_structs, h.new_structs, ?_, ?_, ?_, h.hoistedStructs, ?_,
    hk.trans h.kinds, ?_, hv⟩
  · simp [h.structs_acc, List.filterMap_append, List.filterMap_cons, Stmt.structDecl?]
  · simp [h.functions_acc, List.filterMap_append, Stmt.fnDecl?, List.zipIdx_append,
      h.functions_size, hsize]
  · simp only [Array.size_push, h.functions_size]
    omega
  · intro i hi
    rw [Array.getElem?_push, if_neg (by rw [h.functions_size]; omega)]
    exact h.old_functions i hi
  · intro i f hi hf
    rw [Array.getElem?_push] at hf
    split at hf
    · cases hf
      rfl
    · exact h.new_functions i f hi hf
  · simp [h.hoistedFunctions, hoistEntry]
  · have := h.diagnostics
    simp only [Array.size_append]
    omega

theorem other (h : HoistsDecls c done acc c') (s : Stmt) (hs : s.structDecl? = none)
    (hf : s.fnDecl? = none) : HoistsDecls c (done ++ [s]) acc c' := by
  refine { h with structs_acc := ?_, functions_acc := ?_ }
  · simp [h.structs_acc, List.filterMap_append, hs]
  · simp [h.functions_acc, List.filterMap_append, hf]

end HoistsDecls

/-- The state after hoisting the methods `ms` of struct `sid`, numbered in order from where
`c` left off and added to the struct's methods. -/
structure HoistsMethods (c : Checker) (sid : Nat) (ms : List FunDecl) (c' : Checker) : Prop where
  structs_size : c'.structs.size = c.structs.size
  others : ∀ j, j ≠ sid → c'.structs[j]? = c.structs[j]?
  methods : ∃ added : List (String × Nat),
    c'.structs[sid]? = c.structs[sid]?.map (fun s => { s with methods := s.methods ++ added }) ∧
      added.length = ms.length ∧
      ∀ i, c.functions.size ≤ i → i < c'.functions.size → i ∈ added.map (·.2)
  functions_size : c.functions.size ≤ c'.functions.size
  old_functions : ∀ i < c.functions.size, c'.functions[i]? = c.functions[i]?
  new_functions : ∀ i f, c.functions.size ≤ i → c'.functions[i]? = some f → f.body = none
  hoistedFunctions : ∃ new, c'.hoistedFunctions = new ++ c.hoistedFunctions ∧
    ∀ e ∈ new, e.1 ∈ ms.map (·.name.span.start)
  hoistedStructs : c'.hoistedStructs = c.hoistedStructs
  kinds : c'.kinds = c.kinds
  diagnostics : c.diagnostics.size ≤ c'.diagnostics.size
  valid : c.Valid → c'.Valid

namespace HoistsMethods

variable {c c' : Checker} {sid : Nat} {ms : List FunDecl}

theorem start (c : Checker) (sid : Nat) : HoistsMethods c sid [] c where
  structs_size := rfl
  others _ _ := rfl
  methods := ⟨[], by cases c.structs[sid]? <;> simp, rfl, fun i hi hi' => absurd hi' (by omega)⟩
  functions_size := Nat.le_refl _
  old_functions _ _ := rfl
  new_functions i f hi h := by simp [Array.getElem?_eq_none hi] at h
  hoistedFunctions := ⟨[], rfl, List.forall_mem_nil _⟩
  hoistedStructs := rfl
  kinds := rfl
  diagnostics := Nat.le_refl _
  valid := id

theorem method (h : HoistsMethods c sid ms c') (m : FunDecl) {next : Checker}
    (hadds : Checker.Adds { c' with
      functions := c'.functions.push ⟨m.name.name, [], .void, some sid, m.name.span, none⟩
      hoistedFunctions := (m.name.span.start, c'.functions.size) :: c'.hoistedFunctions } next)
    (params : List (String × Ty)) (result : Ty) :
    HoistsMethods c sid (ms ++ [m]) { next with
      functions := next.functions.modify c'.functions.size fun f =>
        { f with params := params, result := result }
      structs := next.structs.modify sid fun s =>
        { s with methods := s.methods ++ [(m.name.name, c'.functions.size)] } } := by
  have hv := fun hv => ((h.valid hv).push_function _ _).declares (.of_adds hadds)
  obtain ⟨ds, rfl⟩ := hadds
  obtain ⟨added, hsid, hlen, hcover⟩ := h.methods
  obtain ⟨new, hnew, hkeys⟩ := h.hoistedFunctions
  have hsize := h.functions_size
  refine ⟨?_, ?_, ⟨added ++ [(m.name.name, c'.functions.size)], ?_, ?_, ?_⟩, ?_, ?_, ?_,
    ⟨(m.name.span.start, c'.functions.size) :: new, ?_, ?_⟩, h.hoistedStructs, h.kinds, ?_,
    fun hc => ((hv hc).modify_struct sid
      (fun s => { s with methods := s.methods ++ [(m.name.name, c'.functions.size)] })
      fun s e he => ?_).modify_function c'.functions.size
      fun f => { f with params := params, result := result }⟩
  · simp [h.structs_size]
  · intro j hj
    rw [Array.getElem?_modify, if_neg (Ne.symm hj)]
    exact h.others j hj
  · rw [Array.getElem?_modify, if_pos rfl]
    dsimp only
    rw [hsid]
    cases c.structs[sid]? <;> simp
  · simp [hlen]
  · intro i hi hi'
    simp only [Array.size_modify, Array.size_push] at hi'
    rcases Nat.lt_succ_iff_lt_or_eq.mp hi' with hi' | rfl
    · simpa using Or.inl (hcover i hi hi')
    · simp
  · simp only [Array.size_modify, Array.size_push]
    omega
  · intro i hi
    rw [Array.getElem?_modify, if_neg (by omega), Array.getElem?_push, if_neg (by omega)]
    exact h.old_functions i hi
  · intro i f hi hf
    rw [Array.getElem?_modify] at hf
    split at hf
    · subst_vars
      simp at hf
      obtain ⟨_, rfl⟩ := hf
      rfl
    · rw [Array.getElem?_push] at hf
      split at hf
      · cases hf
        rfl
      · exact h.new_functions i f hi hf
  · simp [hnew]
  · intro e he
    rcases List.mem_cons.mp he with rfl | he
    · simp
    · simpa using Or.inl (hkeys e he)
  · have := h.diagnostics
    simp only [Array.size_append]
    omega
  · rw [List.mem_append, List.mem_singleton] at he
    rcases he with he | rfl
    · exact .inl he
    · exact .inr (by simp)

end HoistsMethods

/-- The state after the second pass of hoisting over the structs `done`, which numbers their
methods in order from where `c` left off. -/
structure HoistsMembers (c : Checker) (done : List (StructDecl × Nat)) (c' : Checker) : Prop where
  structs_size : c'.structs.size = c.structs.size
  untouched : ∀ j, (∀ p ∈ done, p.2 ≠ j) → c'.structs[j]? = c.structs[j]?
  methods : ∀ p ∈ done, ∃ info, c'.structs[p.2]? = some info ∧
    info.methods.length = p.1.methods.length
  owned : ∀ i, c.functions.size ≤ i → i < c'.functions.size →
    ∃ p ∈ done, i ∈ (c'.structs[p.2]?.getD default).methods.map (·.2)
  functions_size : c.functions.size ≤ c'.functions.size
  old_functions : ∀ i < c.functions.size, c'.functions[i]? = c.functions[i]?
  new_functions : ∀ i f, c.functions.size ≤ i → c'.functions[i]? = some f → f.body = none
  hoistedFunctions : ∃ new, c'.hoistedFunctions = new ++ c.hoistedFunctions ∧
    ∀ e ∈ new, e.1 ∈ done.flatMap fun p => p.1.methods.map (·.name.span.start)
  hoistedStructs : c'.hoistedStructs = c.hoistedStructs
  kinds : c'.kinds = c.kinds
  diagnostics : c.diagnostics.size ≤ c'.diagnostics.size
  valid : c.Valid → c'.Valid

namespace HoistsMembers

variable {c c' : Checker} {done : List (StructDecl × Nat)}

theorem start (c : Checker) : HoistsMembers c [] c where
  structs_size := rfl
  untouched _ _ := rfl
  methods _ h := absurd h List.not_mem_nil
  owned i hi hi' := absurd hi' (by omega)
  functions_size := Nat.le_refl _
  old_functions _ _ := rfl
  new_functions i f hi h := by simp [Array.getElem?_eq_none hi] at h
  hoistedFunctions := ⟨[], rfl, List.forall_mem_nil _⟩
  hoistedStructs := rfl
  kinds := rfl
  diagnostics := Nat.le_refl _
  valid := id

theorem struct (h : HoistsMembers c done c') (d : StructDecl) (sid : Nat) (name : String)
    (hfresh : ∀ p ∈ done, p.2 ≠ sid) (hempty : c.structs[sid]? = some ⟨name, [], []⟩)
    {read : Checker} (hread : c'.Adds read) (fields : List (String × Ty)) {next : Checker}
    (hm : HoistsMethods { read with
      structs := read.structs.modify sid fun s => { s with fields := fields } }
      sid d.methods next) :
    HoistsMembers c (done ++ [(d, sid)]) next := by
  obtain ⟨ds, rfl⟩ := hread
  obtain ⟨added, hsid, hlen, hcover⟩ := hm.methods
  obtain ⟨new, hnew, hkeys⟩ := h.hoistedFunctions
  obtain ⟨new', hnew', hkeys'⟩ := hm.hoistedFunctions
  have hfsize : c'.functions.size ≤ next.functions.size := hm.functions_size
  have hfsize' := h.functions_size
  have hother : ∀ j, j ≠ sid → next.structs[j]? = c'.structs[j]? := by
    intro j hj
    rw [hm.others j hj, Array.getElem?_modify, if_neg (Ne.symm hj)]
  have hthis : next.structs[sid]? = some ⟨name, fields, added⟩ := by
    rw [hsid, Array.getElem?_modify, if_pos rfl, h.untouched sid hfresh, hempty]
    simp
  refine ⟨?_, ?_, ?_, ?_, ?_, ?_, ?_, ⟨new' ++ new, ?_, ?_⟩, ?_, ?_, ?_, fun hv => hm.valid
    (((h.valid hv).declares (.of_adds ⟨ds, rfl⟩)).modify_struct sid _ fun _ _ he => .inl he)⟩
  · simp [hm.structs_size, h.structs_size]
  · intro j hj
    have hj' : j ≠ sid := fun e => hj (d, sid) (by simp) e.symm
    rw [hother j hj']
    exact h.untouched j fun p hp => hj p (by simp [hp])
  · intro p hp
    rcases List.mem_append.mp hp with hp | hp
    · rw [hother p.2 (hfresh p hp)]
      exact h.methods p hp
    · simp only [List.mem_singleton] at hp
      subst hp
      exact ⟨_, hthis, by simp [hlen]⟩
  · intro i hi hi'
    by_cases hlt : i < c'.functions.size
    · obtain ⟨p, hp, hmem⟩ := h.owned i hi hlt
      exact ⟨p, by simp [hp], by rwa [hother p.2 (hfresh p hp)]⟩
    · exact ⟨(d, sid), by simp, by simpa [hthis] using hcover i (by simp; omega) hi'⟩
  · omega
  · intro i hi
    rw [hm.old_functions i (by simp; omega)]
    exact h.old_functions i hi
  · intro i f hi hf
    by_cases hlt : i < c'.functions.size
    · rw [hm.old_functions i (by simpa using hlt)] at hf
      exact h.new_functions i f hi hf
    · exact hm.new_functions i f (by simp; omega) hf
  · simp [hnew', hnew]
  · intro e he
    rcases List.mem_append.mp he with he | he
    · simpa using Or.inr (by simpa using hkeys' e he)
    · simpa using Or.inl (by simpa using hkeys e he)
  · rw [hm.hoistedStructs]
    exact h.hoistedStructs
  · rw [hm.kinds]
    exact h.kinds
  · have := hm.diagnostics
    have := h.diagnostics
    simp only [Array.size_append] at *
    omega

end HoistsMembers

/-- The state after the last pass of hoisting, which resolves signatures of functions numbered
from `base` on. -/
structure Resolves (base : Nat) (c c' : Checker) : Prop where
  structs : c'.structs = c.structs
  hoistedFunctions : c'.hoistedFunctions = c.hoistedFunctions
  hoistedStructs : c'.hoistedStructs = c.hoistedStructs
  kinds : c'.kinds = c.kinds
  diagnostics : c.diagnostics.size ≤ c'.diagnostics.size
  functions_size : c'.functions.size = c.functions.size
  old_functions : ∀ i < base, c'.functions[i]? = c.functions[i]?
  bodies : ∀ (i : Nat) (f : FunctionInfo), c'.functions[i]? = some f →
    ∃ g : FunctionInfo, c.functions[i]? = some g ∧ f.body = g.body

namespace Resolves

variable {base : Nat} {c c' : Checker}

theorem start (base : Nat) (c : Checker) : Resolves base c c where
  structs := rfl
  hoistedFunctions := rfl
  hoistedStructs := rfl
  kinds := rfl
  diagnostics := Nat.le_refl _
  functions_size := rfl
  old_functions _ _ := rfl
  bodies _ f h := ⟨f, h, rfl⟩

theorem signature (h : Resolves base c c') {fn : Nat} (hfn : base ≤ fn) {read : Checker}
    (hread : c'.Adds read) (params : List (String × Ty)) (result : Ty) :
    Resolves base c { read with
      functions := read.functions.modify fn fun f => { f with params := params, result := result } } := by
  obtain ⟨ds, rfl⟩ := hread
  refine ⟨h.structs, h.hoistedFunctions, h.hoistedStructs, h.kinds, ?_, ?_, ?_, ?_⟩
  · have := h.diagnostics
    simp only [Array.size_append]
    omega
  · simp [h.functions_size]
  · intro i hi
    rw [Array.getElem?_modify, if_neg (by omega)]
    exact h.old_functions i hi
  · intro i f hf
    rw [Array.getElem?_modify] at hf
    split at hf
    · obtain ⟨g, hg, rfl⟩ := Option.map_eq_some_iff.mp hf
      obtain ⟨g', hg', hbody⟩ := h.bodies i g hg
      exact ⟨g', hg', hbody⟩
    · exact h.bodies i f hf

theorem valid (h : Resolves base c c') (hv : c.Valid) : c'.Valid :=
  hv.of_le h.hoistedFunctions h.structs (Nat.le_of_eq h.functions_size.symm)

end Resolves

theorem lookup_eq_of_mem {l : List (Nat × Nat)} {k v : Nat} (hnd : (l.map Prod.fst).Nodup)
    (h : (k, v) ∈ l) : l.lookup k = some v := by
  induction l with
  | nil => cases h
  | cons e l ih =>
    obtain ⟨k', v'⟩ := e
    simp only [List.map_cons, List.nodup_cons] at hnd
    rw [List.lookup_cons]
    rcases List.mem_cons.mp h with he | h
    · cases he
      simp
    · have hk : k ≠ k' := fun e => hnd.1 (e ▸ List.mem_map_of_mem (f := Prod.fst) h)
      rw [beq_false_of_ne hk]
      exact ih hnd.2 h

theorem lookup_append_of_not_mem {l r : List (Nat × Nat)} {k : Nat} (h : k ∉ l.map Prod.fst) :
    (l ++ r).lookup k = r.lookup k := by
  induction l with
  | nil => rfl
  | cons e l ih =>
    obtain ⟨k', v'⟩ := e
    simp only [List.map_cons, List.mem_cons, not_or] at h
    rw [List.cons_append, List.lookup_cons, beq_false_of_ne h.1]
    exact ih h.2

theorem mem_of_lookup_eq_some {l : List (Nat × Nat)} {k v : Nat} (h : l.lookup k = some v) :
    (k, v) ∈ l := by
  induction l with
  | nil => cases h
  | cons e l ih =>
    obtain ⟨k', v'⟩ := e
    rw [List.lookup_cons] at h
    split at h
    · cases h
      rename_i hk
      rw [beq_iff_eq.mp hk]
      exact List.mem_cons_self
    · exact List.mem_cons_of_mem _ (ih h)

theorem lookup_grows {keys : List Nat} {l l' : List (Nat × Nat)} {k : Nat}
    (h : ∃ new, l' = new ++ l ∧ ∀ e ∈ new, e.1 ∈ keys) (hk : k ∉ keys) : l'.lookup k = l.lookup k := by
  obtain ⟨new, rfl, hnew⟩ := h
  refine lookup_append_of_not_mem fun hm => ?_
  obtain ⟨e, he, rfl⟩ := List.mem_map.mp hm
  exact hk (hnew e he)

theorem eq_of_mem_flatMap_nodup {γ : Type} {l : List γ} {f : γ → List Nat} {a b : γ} {k : Nat}
    (hnd : (l.flatMap f).Nodup) (ha : a ∈ l) (hb : b ∈ l) (hka : k ∈ f a) (hkb : k ∈ f b) :
    a = b := by
  induction l with
  | nil => cases ha
  | cons x l ih =>
    rw [List.flatMap_cons, List.nodup_append] at hnd
    have hin : ∀ y ∈ l, k ∈ f y → k ∉ f x := fun y hy hky hkx =>
      hnd.2.2 k hkx k (List.mem_flatMap.mpr ⟨y, hy, hky⟩) rfl
    rcases List.mem_cons.mp ha with hax | hal <;> rcases List.mem_cons.mp hb with hbx | hbl
    · rw [hax, hbx]
    · exact absurd (hax ▸ hka) (hin b hbl hkb)
    · exact absurd (hbx ▸ hkb) (hin a hal hka)
    · exact ih hnd.2.1 hal hbl

theorem hoistEntries_keys {δ : Type} (name : δ → Ident) (ds : List δ) (n : Nat) :
    ((ds.zipIdx n).map (hoistEntry name)).reverse.map Prod.fst =
      (ds.map fun d => (name d).span.start).reverse := by
  rw [List.map_reverse, List.map_map]
  have : (Prod.fst ∘ hoistEntry name) = (fun d => (name d).span.start) ∘ Prod.fst := rfl
  rw [this, ← List.map_map, List.zipIdx_map_fst]

theorem funDecl_starts_sublist (ss : List Stmt) :
    List.Sublist ((ss.filterMap Stmt.fnDecl?).map (·.name.span.start))
      (ss.flatMap Stmt.hoistStarts) := by
  induction ss with
  | nil => exact List.Sublist.slnil
  | cons s ss ih =>
    rw [List.flatMap_cons]
    cases s with
    | fnDecl d _ => exact ih.cons_cons _
    | structDecl d _ => exact ih.trans (List.sublist_append_right _ _)
    | _ => exact ih

theorem structDecl_starts_sublist (ss : List Stmt) :
    List.Sublist ((ss.filterMap Stmt.structDecl?).map (·.name.span.start))
      (ss.flatMap Stmt.hoistStarts) := by
  induction ss with
  | nil => exact List.Sublist.slnil
  | cons s ss ih =>
    rw [List.flatMap_cons]
    cases s with
    | structDecl d _ => exact (ih.trans (List.sublist_append_right _ _)).cons_cons _
    | fnDecl d _ => exact ih.trans (List.sublist_append_right _ _)
    | _ => exact ih

theorem mem_of_mem_zipIdx {γ : Type} {l : List γ} {k : Nat} {p : γ × Nat} (h : p ∈ l.zipIdx k) :
    p.1 ∈ l := by
  rw [← List.zipIdx_map_fst k l]
  exact List.mem_map_of_mem h

theorem mem_of_fnDecl {ss : List Stmt} {d : FunDecl} (h : d ∈ ss.filterMap Stmt.fnDecl?) :
    ∃ span, Stmt.fnDecl d span ∈ ss := by
  obtain ⟨s, hs, hd⟩ := List.mem_filterMap.mp h
  cases s <;> simp only [Stmt.fnDecl?, reduceCtorEq, Option.some.injEq] at hd
  subst hd
  exact ⟨_, hs⟩

theorem mem_of_structDecl {ss : List Stmt} {d : StructDecl} (h : d ∈ ss.filterMap Stmt.structDecl?) :
    ∃ span, Stmt.structDecl d span ∈ ss := by
  obtain ⟨s, hs, hd⟩ := List.mem_filterMap.mp h
  cases s <;> simp only [Stmt.structDecl?, reduceCtorEq, Option.some.injEq] at hd
  subst hd
  exact ⟨_, hs⟩

namespace HoistsDecls

variable {c c' : Checker} {done : List Stmt} {acc : Array (StructDecl × Nat) × Array (FunDecl × Nat)}

theorem le_struct (h : HoistsDecls c done acc c') {p : StructDecl × Nat} (hp : p ∈ acc.1.toList) :
    c.structs.size ≤ p.2 := by
  rw [h.structs_acc] at hp
  exact (List.mem_zipIdx hp).1

theorem le_function (h : HoistsDecls c done acc c') {p : FunDecl × Nat} (hp : p ∈ acc.2.toList) :
    c.functions.size ≤ p.2 := by
  rw [h.functions_acc] at hp
  exact (List.mem_zipIdx hp).1

theorem struct_declared (h : HoistsDecls c done acc c') {p : StructDecl × Nat}
    (hp : p ∈ acc.1.toList) : ∃ span, Stmt.structDecl p.1 span ∈ done := by
  rw [h.structs_acc] at hp
  exact mem_of_structDecl (mem_of_mem_zipIdx hp)

theorem function_declared (h : HoistsDecls c done acc c') {p : FunDecl × Nat}
    (hp : p ∈ acc.2.toList) : ∃ span, Stmt.fnDecl p.1 span ∈ done := by
  rw [h.functions_acc] at hp
  exact mem_of_fnDecl (mem_of_mem_zipIdx hp)

theorem function_of_lt (h : HoistsDecls c done acc c') {i : Nat} (hi : c.functions.size ≤ i)
    (hlt : i < c'.functions.size) : ∃ d, (d, i) ∈ acc.2.toList := by
  have hlen : acc.2.size = (done.filterMap Stmt.fnDecl?).length := by
    rw [← Array.length_toList, h.functions_acc, List.length_zipIdx]
  have hbound : i - c.functions.size < (done.filterMap Stmt.fnDecl?).length := by
    rw [← hlen]
    rw [h.functions_size] at hlt
    omega
  refine ⟨(done.filterMap Stmt.fnDecl?)[i - c.functions.size], ?_⟩
  rw [h.functions_acc]
  exact List.mk_mem_zipIdx_iff_le_and_getElem?_sub.mpr ⟨hi, List.getElem?_eq_getElem hbound⟩

theorem functionKeys_nodup (h : HoistsDecls c done acc c')
    (hnd : (done.flatMap Stmt.hoistStarts).Nodup) :
    ((acc.2.toList.map (hoistEntry (·.name))).reverse.map Prod.fst).Nodup := by
  rw [h.functions_acc, hoistEntries_keys, List.nodup_reverse]
  exact hnd.sublist (funDecl_starts_sublist done)

theorem structKeys_nodup (h : HoistsDecls c done acc c')
    (hnd : (done.flatMap Stmt.hoistStarts).Nodup) :
    ((acc.1.toList.map (hoistEntry (·.name))).reverse.map Prod.fst).Nodup := by
  rw [h.structs_acc, hoistEntries_keys, List.nodup_reverse]
  exact hnd.sublist (structDecl_starts_sublist done)

theorem structs_nodup (h : HoistsDecls c done acc c') : (acc.1.toList.map Prod.snd).Nodup := by
  rw [h.structs_acc, List.zipIdx_map_snd]
  exact List.nodup_range'

theorem struct_fresh (h : HoistsDecls c done acc c') {before rest : List (StructDecl × Nat)}
    {p : StructDecl × Nat} (hsplit : before ++ p :: rest = acc.1.toList) :
    ∀ q ∈ before, q.2 ≠ p.2 := by
  have hnodup := h.structs_nodup
  rw [← hsplit, List.map_append, List.nodup_append] at hnodup
  exact fun q hq => hnodup.2.2 q.2 (List.mem_map_of_mem hq) p.2 (by simp)

theorem struct_key (h : HoistsDecls c done acc c')
    (hc : ∀ e ∈ c.hoistedStructs, e.2 < c.structs.size) {p : StructDecl × Nat}
    (hp : p ∈ acc.1.toList) : ∀ e ∈ c'.hoistedStructs, e.2 = p.2 → e.1 = p.1.name.span.start := by
  intro e he hesid
  rw [h.hoistedStructs, List.mem_append, List.mem_reverse] at he
  rcases he with he | he
  · obtain ⟨q, hq, rfl⟩ := List.mem_map.mp he
    have hqp : q = p := List.inj_on_of_nodup_map h.structs_nodup hq hp hesid
    subst hqp
    rfl
  · have := h.le_struct hp
    have := hc e he
    omega

end HoistsDecls

theorem HoistsMethods.struct_methods {c c' : Checker} {sid : Nat} {ms : List FunDecl}
    (h : HoistsMethods c sid ms c') {info : StructInfo} (hinfo : c.structs[sid]? = some info)
    (hnone : info.methods = []) :
    ∃ info' : StructInfo, c'.structs[sid]? = some info' ∧ info'.methods.length = ms.length := by
  obtain ⟨added, hsid, hlen, -⟩ := h.methods
  refine ⟨{ info with methods := info.methods ++ added }, ?_, ?_⟩
  · rw [hsid, hinfo]
    rfl
  · simp [hnone, hlen]

/-- What hoisting the statements `ss` does to the state: it adds functions with no body yet,
structs and entries for their keys, and changes nothing that was there. When the keys of the
statements are distinct, each new function is one that checking a statement gives a body. -/
structure Hoisted (ss : List Stmt) (c c' : Checker) : Prop where
  kinds : c'.kinds = c.kinds
  diagnostics : c.diagnostics.size ≤ c'.diagnostics.size
  functions_size : c.functions.size ≤ c'.functions.size
  old_functions : ∀ i < c.functions.size, c'.functions[i]? = c.functions[i]?
  new_functions : ∀ i f, c.functions.size ≤ i → c'.functions[i]? = some f → f.body = none
  structs : ∀ (i : Nat) (s : StructInfo), c.structs[i]? = some s → c'.structs[i]? = some s
  hoistedFunctions : ∃ new, c'.hoistedFunctions = new ++ c.hoistedFunctions ∧
    ∀ e ∈ new, e.1 ∈ ss.flatMap Stmt.hoistStarts
  hoistedStructs : ∃ new, c'.hoistedStructs = new ++ c.hoistedStructs ∧
    ∀ e ∈ new, e.1 ∈ ss.flatMap Stmt.hoistStarts
  owned : (ss.flatMap Stmt.hoistStarts).Nodup → ∀ i, c.functions.size ≤ i →
    i < c'.functions.size → ∃ s ∈ ss, i ∈ ownFunctions c' s
  valid : c.Valid → c'.Valid

theorem Hoisted.of_passes {ss : List Stmt} {c c₁ c₂ c₃ : Checker}
    {acc : Array (StructDecl × Nat) × Array (FunDecl × Nat)} (h₁ : HoistsDecls c ss acc c₁)
    (h₂ : HoistsMembers c₁ acc.1.toList c₂) (h₃ : Resolves c.functions.size c₂ c₃) :
    Hoisted ss c c₃ := by
  have hf₁ : c.functions.size ≤ c₁.functions.size := by rw [h₁.functions_size]; omega
  have hf₂ := h₂.functions_size
  have hf₃ := h₃.functions_size
  obtain ⟨newM, hnewM, hkeysM⟩ := h₂.hoistedFunctions
  refine ⟨?_, ?_, by omega, ?_, ?_, ?_, ⟨newM ++ (acc.2.toList.map (hoistEntry (·.name))).reverse,
    ?_, ?_⟩, ⟨(acc.1.toList.map (hoistEntry (·.name))).reverse, ?_, ?_⟩, ?_,
    fun hv => h₃.valid (h₂.valid (h₁.valid hv))⟩
  · rw [h₃.kinds, h₂.kinds, h₁.kinds]
  · have := h₁.diagnostics
    have := h₂.diagnostics
    have := h₃.diagnostics
    omega
  · intro i hi
    rw [h₃.old_functions i hi, h₂.old_functions i (by omega), h₁.old_functions i hi]
  · intro i f hi hf
    obtain ⟨g, hg, hbody⟩ := h₃.bodies i f hf
    rw [hbody]
    by_cases hlt : i < c₁.functions.size
    · rw [h₂.old_functions i hlt] at hg
      exact h₁.new_functions i g hi hg
    · exact h₂.new_functions i g (by omega) hg
  · intro i s hs
    have hi : i < c.structs.size := (Array.getElem?_eq_some_iff.mp hs).1
    rw [h₃.structs, h₂.untouched i fun p hp => by have := h₁.le_struct hp; omega,
      h₁.old_structs i hi]
    exact hs
  · rw [h₃.hoistedFunctions, hnewM, h₁.hoistedFunctions, List.append_assoc]
  · intro e he
    rcases List.mem_append.mp he with he | he
    · obtain ⟨p, hp, hm⟩ := List.mem_flatMap.mp (hkeysM e he)
      obtain ⟨span, hs⟩ := h₁.struct_declared hp
      exact List.mem_flatMap.mpr ⟨_, hs, by simpa [Stmt.hoistStarts] using Or.inr hm⟩
    · rw [List.mem_reverse] at he
      obtain ⟨p, hp, rfl⟩ := List.mem_map.mp he
      obtain ⟨span, hs⟩ := h₁.function_declared hp
      exact List.mem_flatMap.mpr ⟨_, hs, by simp [hoistEntry, Stmt.hoistStarts]⟩
  · rw [h₃.hoistedStructs, h₂.hoistedStructs, h₁.hoistedStructs]
  · intro e he
    rw [List.mem_reverse] at he
    obtain ⟨p, hp, rfl⟩ := List.mem_map.mp he
    obtain ⟨span, hs⟩ := h₁.struct_declared hp
    exact List.mem_flatMap.mpr ⟨_, hs, by simp [hoistEntry, Stmt.hoistStarts]⟩
  · intro hnd i hi hi'
    by_cases hlt : i < c₁.functions.size
    · obtain ⟨d, hmem⟩ := h₁.function_of_lt hi hlt
      obtain ⟨span, hs⟩ := h₁.function_declared hmem
      refine ⟨_, hs, ?_⟩
      have hkd : d.name.span.start ∈ (Stmt.fnDecl d span).hoistStarts := by simp [Stmt.hoistStarts]
      have hnotM : d.name.span.start ∉ newM.map Prod.fst := by
        intro hk
        obtain ⟨e, he, hek⟩ := List.mem_map.mp hk
        obtain ⟨p, hp, hm⟩ := List.mem_flatMap.mp (hkeysM e he)
        obtain ⟨span', hs'⟩ := h₁.struct_declared hp
        have := eq_of_mem_flatMap_nodup hnd hs hs' hkd
          (by simpa [Stmt.hoistStarts, hek] using Or.inr hm)
        cases this
      have hentry : (d.name.span.start, i) ∈ (acc.2.toList.map (hoistEntry (·.name))).reverse :=
        List.mem_reverse.mpr (List.mem_map.mpr ⟨(d, i), hmem, rfl⟩)
      simp only [ownFunctions, h₃.hoistedFunctions, hnewM, h₁.hoistedFunctions,
        lookup_append_of_not_mem hnotM, List.lookup_append,
        lookup_eq_of_mem (h₁.functionKeys_nodup hnd) hentry]
      simp
    · obtain ⟨p, hp, hm⟩ := h₂.owned i (by omega) (by omega)
      obtain ⟨span, hs⟩ := h₁.struct_declared hp
      refine ⟨_, hs, ?_⟩
      have hentry : (p.1.name.span.start, p.2) ∈ (acc.1.toList.map (hoistEntry (·.name))).reverse :=
        List.mem_reverse.mpr (List.mem_map.mpr ⟨p, hp, rfl⟩)
      obtain ⟨info, hinfo, hlen⟩ := h₂.methods p hp
      simp only [ownFunctions, methodNumbers, h₃.hoistedStructs, h₂.hoistedStructs, h₁.hoistedStructs,
        List.lookup_append, lookup_eq_of_mem (h₁.structKeys_nodup hnd) hentry, Option.some_or,
        h₃.structs]
      rw [hinfo] at hm ⊢
      rw [Option.getD_some] at hm ⊢
      rw [← hlen, List.take_of_length_le (by simp)]
      exact hm

theorem hoist_hoisted (ss : List Stmt) (c : Checker) : Hoisted ss c ((hoist ss).run c).2 := by
  unfold hoist
  dsimp only
  refine run_forIn_bind (Q := fun r => Hoisted ss c r.2) (fun done acc c' => HoistsDecls c done acc c')
    (HoistsDecls.start c) ?_ fun acc c₁ h₁ => ?_
  · intro done a rest acc c' _ h
    cases a with
    | structDecl d span => exact ⟨_, rfl, h.structDecl d span (declare_declares _ _ _)⟩
    | fnDecl d span => exact ⟨_, rfl, h.fnDecl d span (declare_declares _ _ _)⟩
    | _ => exact ⟨_, rfl, h.other _ rfl rfl⟩
  · rw [← Array.forIn_toList, ← Array.forIn_toList]
    refine run_forIn_bind (Q := fun r => Hoisted ss c r.2)
      (fun done _ c' => HoistsMembers c₁ done c') (HoistsMembers.start c₁) ?_ fun _ c₂ h₂ => ?_
    · intro done p rest u c' hsplit h
      obtain ⟨d, sid⟩ := p
      rw [run_bind, run_bind]
      refine run_forIn_bind
        (Q := fun r => ∃ acc', r.1 = ForInStep.yield acc' ∧ HoistsMembers c₁ (done ++ [(d, sid)]) r.2)
        (fun ms _ c'' => HoistsMethods _ sid ms c'') (HoistsMethods.start _ sid) ?_
        fun _ cm hm => ⟨_, rfl, ?_⟩
      · intro mdone m mrest u' c'' _ hm
        obtain ⟨next, params, result, hadds, heq⟩ := resolveSignature_run m c''.functions.size
          { c'' with
            functions := c''.functions.push ⟨m.name.name, [], .void, some sid, m.name.span, none⟩
            hoistedFunctions := (m.name.span.start, c''.functions.size) :: c''.hoistedFunctions }
        refine ⟨_, rfl, ?_⟩
        simp only [run_bind, allocateFunction_run, modify_run]
        rw [heq]
        exact hm.method m hadds params result
      · have hmem : (d, sid) ∈ acc.1.toList := by rw [← hsplit]; simp
        exact h.struct d sid d.name.name (h₁.struct_fresh hsplit) (h₁.new_structs _ hmem)
          ((Quietly.mapM_trivial (fun b => resolveBinding_adds b .null) d.fields) c').1 _ hm
    · refine run_forIn_bind (Q := fun r => Hoisted ss c r.2)
        (fun _ _ c' => Resolves c.functions.size c₂ c') (Resolves.start _ c₂) ?_
        fun _ c₃ h₃ => Hoisted.of_passes h₁ h₂ h₃
      intro done p rest u c' hsplit h
      obtain ⟨d, fn⟩ := p
      have hfn : c.functions.size ≤ fn := h₁.le_function (p := (d, fn)) (by rw [← hsplit]; simp)
      obtain ⟨next, params, result, hadds, heq⟩ := resolveSignature_run d fn c'
      refine ⟨_, rfl, ?_⟩
      rw [run_bind, heq]
      exact h.signature hfn hadds params result

end Sigh.Typing
