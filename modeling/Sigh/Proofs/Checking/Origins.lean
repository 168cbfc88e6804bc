import Sigh.Proofs.Checking.Hoisting

namespace Sigh

/-- A declaration of a function or method, or of a struct. -/
inductive Decl where
  | fn (d : FunDecl)
  | struct (d : StructDecl)

/-- Where the name of a declaration starts. -/
def Decl.start : Decl → Nat
  | .fn d => d.name.span.start
  | .struct d => d.name.span.start

mutual
/-- The functions, methods and structs declared in the statement, nested ones included. -/
def Stmt.decls : Stmt → List Decl
  | .block body _ => Stmt.listDecls body
  | .fnDecl d _ => d.decls
  | .structDecl d _ => d.decls
  | .ifElse _ thenBranch elseBranch _ => thenBranch.decls ++ Stmt.optionDecls elseBranch
  | .whileLoop _ body _ => body.decls
  | .var .. | .sizedArray .. | .ret .. | .expr .. => []
def Stmt.optionDecls : Option Stmt → List Decl
  | some s => s.decls
  | none => []
def Stmt.listDecls : List Stmt → List Decl
  | [] => []
  | s :: rest => s.decls ++ Stmt.listDecls rest
def FunDecl.decls : FunDecl → List Decl
  | ⟨name, params, result, body, bodySpan⟩ =>
    .fn ⟨name, params, result, body, bodySpan⟩ :: Stmt.listDecls body
def FunDecl.listDecls : List FunDecl → List Decl
  | [] => []
  | d :: rest => d.decls ++ FunDecl.listDecls rest
def StructDecl.decls : StructDecl → List Decl
  | ⟨name, fields, methods⟩ => .struct ⟨name, fields, methods⟩ :: FunDecl.listDecls methods
end

mutual
theorem Stmt.map_start_decls : (s : Stmt) → s.decls.map Decl.start = s.declStarts
  | .block body _ => by
    rw [Stmt.decls, Stmt.declStarts, Stmt.map_start_listDecls body]
  | .fnDecl d _ => by rw [Stmt.decls, Stmt.declStarts, FunDecl.map_start_decls d]
  | .structDecl d _ => by rw [Stmt.decls, Stmt.declStarts, StructDecl.map_start_decls d]
  | .ifElse _ thenBranch elseBranch _ => by
    rw [Stmt.decls, Stmt.declStarts, List.map_append, Stmt.map_start_decls thenBranch,
      Stmt.map_start_optionDecls elseBranch]
  | .whileLoop _ body _ => by rw [Stmt.decls, Stmt.declStarts, Stmt.map_start_decls body]
  | .var .. | .sizedArray .. | .ret .. | .expr .. => rfl
theorem Stmt.map_start_optionDecls : (s : Option Stmt) →
    (Stmt.optionDecls s).map Decl.start = Stmt.optionDeclStarts s
  | some s => by rw [Stmt.optionDecls, Stmt.optionDeclStarts, Stmt.map_start_decls s]
  | none => rfl
theorem Stmt.map_start_listDecls : (ss : List Stmt) →
    (Stmt.listDecls ss).map Decl.start = Stmt.listDeclStarts ss
  | [] => rfl
  | s :: rest => by
    rw [Stmt.listDecls, Stmt.listDeclStarts, List.map_append, Stmt.map_start_decls s,
      Stmt.map_start_listDecls rest]
theorem FunDecl.map_start_decls : (d : FunDecl) → d.decls.map Decl.start = d.declStarts
  | ⟨name, params, result, body, bodySpan⟩ => by
    rw [FunDecl.decls, FunDecl.declStarts, List.map_cons, Stmt.map_start_listDecls body]
    rfl
theorem FunDecl.map_start_listDecls : (ds : List FunDecl) →
    (FunDecl.listDecls ds).map Decl.start = FunDecl.listDeclStarts ds
  | [] => rfl
  | d :: rest => by
    rw [FunDecl.listDecls, FunDecl.listDeclStarts, List.map_append, FunDecl.map_start_decls d,
      FunDecl.map_start_listDecls rest]
theorem StructDecl.map_start_decls : (d : StructDecl) → d.decls.map Decl.start = d.declStarts
  | ⟨name, fields, methods⟩ => by
    rw [StructDecl.decls, StructDecl.declStarts, List.map_cons, FunDecl.map_start_listDecls methods]
    rfl
end

theorem Stmt.listDecls_eq_flatMap (ss : List Stmt) : Stmt.listDecls ss = ss.flatMap Stmt.decls := by
  induction ss with
  | nil => rfl
  | cons s rest ih => rw [Stmt.listDecls, ih, List.flatMap_cons]

theorem FunDecl.listDecls_eq_flatMap (ds : List FunDecl) :
    FunDecl.listDecls ds = ds.flatMap FunDecl.decls := by
  induction ds with
  | nil => rfl
  | cons d rest ih => rw [FunDecl.listDecls, ih, List.flatMap_cons]

@[simp] theorem FunDecl.mem_decls_self (d : FunDecl) : Decl.fn d ∈ d.decls := by
  obtain ⟨name, params, result, body, bodySpan⟩ := d
  simp [FunDecl.decls]

@[simp] theorem StructDecl.mem_decls_self (d : StructDecl) : Decl.struct d ∈ d.decls := by
  obtain ⟨name, fields, methods⟩ := d
  simp [StructDecl.decls]

theorem StructDecl.mem_decls_of_method {d : StructDecl} {m : FunDecl} (hm : m ∈ d.methods) :
    Decl.fn m ∈ d.decls := by
  obtain ⟨name, fields, methods⟩ := d
  rw [StructDecl.decls, FunDecl.listDecls_eq_flatMap]
  exact List.mem_cons_of_mem _ (List.mem_flatMap.mpr ⟨m, hm, FunDecl.mem_decls_self m⟩)

theorem Decl.eq_of_start_eq {all : List Decl} (hnd : (all.map Decl.start).Nodup) {x y : Decl}
    (hx : x ∈ all) (hy : y ∈ all) (h : x.start = y.start) : x = y :=
  List.inj_on_of_nodup_map hnd hx hy h

end Sigh

namespace Sigh.Typing

/-- The methods `ms` of a struct, by name and function number, number in order functions named
where the first of the methods `decls` are. -/
def MethodsOf (fs : Array FunctionInfo) (ms : List (String × Nat)) (decls : List FunDecl) : Prop :=
  ∀ (j : Nat) (p : String × Nat), ms[j]? = some p →
    ∃ (m : FunDecl) (f : FunctionInfo), decls[j]? = some m ∧ fs[p.2]? = some f ∧ f.span = m.name.span

/-- The functions `fs'` are the functions `fs` with the same names and places. -/
def SameNames (fs fs' : Array FunctionInfo) : Prop :=
  ∀ i : Nat, fs'[i]?.map (fun f : FunctionInfo => (f.name, f.span)) =
    fs[i]?.map (fun f : FunctionInfo => (f.name, f.span))

/-- A state of checking that knows only the declarations `all`. -/
structure Checker.Sourced (all : List Decl) (c : Checker) : Prop where
  functions : ∀ (i : Nat) (f : FunctionInfo), c.functions[i]? = some f →
    ∃ d, Decl.fn d ∈ all ∧ f.name = d.name.name ∧ f.span = d.name.span
  hoistedFunctions : ∀ e ∈ c.hoistedFunctions,
    ∃ f : FunctionInfo, c.functions[e.2]? = some f ∧ f.span.start = e.1
  hoistedStructs : ∀ e ∈ c.hoistedStructs, ∃ (info : StructInfo) (d : StructDecl),
    c.structs[e.2]? = some info ∧
    Decl.struct d ∈ all ∧ d.name.span.start = e.1 ∧ MethodsOf c.functions info.methods d.methods

theorem SameNames.get {fs fs' : Array FunctionInfo} (h : SameNames fs fs') {i : Nat}
    {f : FunctionInfo} (hf : fs[i]? = some f) :
    ∃ f', fs'[i]? = some f' ∧ f'.name = f.name ∧ f'.span = f.span := by
  have hi := h i
  rw [hf] at hi
  obtain ⟨f', hf', he⟩ := Option.map_eq_some_iff.mp hi
  simp only [Prod.mk.injEq] at he
  exact ⟨f', hf', he⟩

theorem SameNames.get_back {fs fs' : Array FunctionInfo} (h : SameNames fs fs') {i : Nat}
    {f' : FunctionInfo} (hf : fs'[i]? = some f') :
    ∃ f, fs[i]? = some f ∧ f'.name = f.name ∧ f'.span = f.span := by
  have hi := h i
  rw [hf] at hi
  obtain ⟨f, hf₀, he⟩ := Option.map_eq_some_iff.mp hi.symm
  simp only [Prod.mk.injEq] at he
  exact ⟨f, hf₀, he.1.symm, he.2.symm⟩

theorem sameNames_modify (fs : Array FunctionInfo) (fn : Nat) (g : FunctionInfo → FunctionInfo)
    (hg : ∀ f, (g f).name = f.name ∧ (g f).span = f.span) : SameNames fs (fs.modify fn g) := by
  intro i
  rw [Array.getElem?_modify]
  split
  · cases fs[i]? with
    | none => rfl
    | some f => simp [hg f]
  · rfl

theorem getElem?_push_of_some {fs : Array FunctionInfo} {i : Nat} {f : FunctionInfo}
    (hf : fs[i]? = some f) (g : FunctionInfo) : (fs.push g)[i]? = some f := by
  rw [Array.getElem?_push, if_neg (Nat.ne_of_lt (Array.getElem?_eq_some_iff.mp hf).1)]
  exact hf

theorem MethodsOf.mono {fs fs' : Array FunctionInfo} {ms : List (String × Nat)}
    {decls : List FunDecl} (h : MethodsOf fs ms decls)
    (hfs : ∀ (i : Nat) (f : FunctionInfo), fs[i]? = some f →
      ∃ f' : FunctionInfo, fs'[i]? = some f' ∧ f'.span = f.span) :
    MethodsOf fs' ms decls := by
  intro j p hp
  obtain ⟨m, f, hm, hf, hspan⟩ := h j p hp
  obtain ⟨f', hf', hspan'⟩ := hfs _ f hf
  exact ⟨m, f', hm, hf', hspan'.trans hspan⟩

namespace Checker.Sourced

variable {all : List Decl} {c : Checker}

theorem congr (h : c.Sourced all) {c' : Checker} (hfs : SameNames c.functions c'.functions)
    (hs : ∀ i : Nat, c'.structs[i]?.map (·.methods) = c.structs[i]?.map (·.methods))
    (hhf : c'.hoistedFunctions = c.hoistedFunctions)
    (hhs : c'.hoistedStructs = c.hoistedStructs) : c'.Sourced all where
  functions i f hf := by
    obtain ⟨f₀, hf₀, hn, hsp⟩ := hfs.get_back hf
    obtain ⟨d, hd, hn', hsp'⟩ := h.functions i f₀ hf₀
    exact ⟨d, hd, hn.trans hn', hsp.trans hsp'⟩
  hoistedFunctions e he := by
    obtain ⟨f, hf, hk⟩ := h.hoistedFunctions e (hhf ▸ he)
    obtain ⟨f', hf', -, hsp⟩ := hfs.get hf
    exact ⟨f', hf', by rw [hsp, hk]⟩
  hoistedStructs e he := by
    obtain ⟨info, d, hinfo, hd, hk, hm⟩ := h.hoistedStructs e (hhs ▸ he)
    have hi := hs e.2
    rw [hinfo] at hi
    obtain ⟨info', hinfo', hmeth⟩ := Option.map_eq_some_iff.mp hi
    refine ⟨info', d, hinfo', hd, hk, ?_⟩
    rw [hmeth]
    exact hm.mono fun i f hf => by
      obtain ⟨f', hf', -, hsp⟩ := hfs.get hf
      exact ⟨f', hf', hsp⟩

theorem declares (h : c.Sourced all) {c' : Checker} (hc : c.Declares c') : c'.Sourced all := by
  obtain ⟨scopes, ds, rfl, -⟩ := hc
  exact h.congr (fun _ => rfl) (fun _ => rfl) rfl rfl

theorem modify_function (h : c.Sourced all) (fn : Nat) (g : FunctionInfo → FunctionInfo)
    (hg : ∀ f, (g f).name = f.name ∧ (g f).span = f.span) :
    Checker.Sourced all { c with functions := c.functions.modify fn g } :=
  h.congr (sameNames_modify _ fn g hg) (fun _ => rfl) rfl rfl

theorem modify_struct (h : c.Sourced all) (sid : Nat) (g : StructInfo → StructInfo)
    (hg : ∀ s, (g s).methods = s.methods) :
    Checker.Sourced all { c with structs := c.structs.modify sid g } := by
  refine h.congr (fun _ => rfl) (fun i => ?_) rfl rfl
  rw [Array.getElem?_modify]
  split
  · cases c.structs[i]? <;> simp [hg]
  · rfl

theorem push_function (h : c.Sourced all) {d : FunDecl} (hd : Decl.fn d ∈ all)
    (owner : Option Nat) :
    Checker.Sourced all { c with
      functions := c.functions.push ⟨d.name.name, [], .void, owner, d.name.span, none⟩
      hoistedFunctions := (d.name.span.start, c.functions.size) :: c.hoistedFunctions } where
  functions i f hf := by
    rw [Array.getElem?_push] at hf
    split at hf
    · cases hf
      exact ⟨d, hd, rfl, rfl⟩
    · exact h.functions i f hf
  hoistedFunctions e he := by
    rcases List.mem_cons.mp he with rfl | he
    · exact ⟨⟨d.name.name, [], .void, owner, d.name.span, none⟩, by simp, rfl⟩
    · obtain ⟨f, hf, hk⟩ := h.hoistedFunctions e he
      exact ⟨f, getElem?_push_of_some hf _, hk⟩
  hoistedStructs e he := by
    obtain ⟨info, d', hinfo, hd', hk, hm⟩ := h.hoistedStructs e he
    exact ⟨info, d', hinfo, hd', hk, hm.mono fun i f hf => ⟨f, getElem?_push_of_some hf _, rfl⟩⟩

theorem push_struct (h : c.Sourced all) {d : StructDecl} (hd : Decl.struct d ∈ all) :
    Checker.Sourced all { c with
      structs := c.structs.push ⟨d.name.name, [], []⟩
      hoistedStructs := (d.name.span.start, c.structs.size) :: c.hoistedStructs } where
  functions := h.functions
  hoistedFunctions := h.hoistedFunctions
  hoistedStructs e he := by
    rcases List.mem_cons.mp he with rfl | he
    · exact ⟨⟨d.name.name, [], []⟩, d, by simp, hd, rfl, fun j p hp => by simp at hp⟩
    · obtain ⟨info, d', hinfo, hd', hk, hm⟩ := h.hoistedStructs e he
      refine ⟨info, d', ?_, hd', hk, hm⟩
      rw [Array.getElem?_push, if_neg (Nat.ne_of_lt (Array.getElem?_eq_some_iff.mp hinfo).1)]
      exact hinfo

theorem struct_lt (h : c.Sourced all) {e : Nat × Nat} (he : e ∈ c.hoistedStructs) :
    e.2 < c.structs.size := by
  obtain ⟨info, -, hinfo, -⟩ := h.hoistedStructs e he
  exact (Array.getElem?_eq_some_iff.mp hinfo).1

theorem add_method (h : c.Sourced all) (hnd : (all.map Decl.start).Nodup) {sid : Nat}
    {d : StructDecl} (hd : Decl.struct d ∈ all)
    (hkeys : ∀ e ∈ c.hoistedStructs, e.2 = sid → e.1 = d.name.span.start) {info : StructInfo}
    (hinfo : c.structs[sid]? = some info) {m : FunDecl}
    (hm : d.methods[info.methods.length]? = some m) {fn : Nat} {f : FunctionInfo}
    (hf : c.functions[fn]? = some f) (hspan : f.span = m.name.span) (name : String) :
    Checker.Sourced all { c with structs := c.structs.modify sid fun s =>
      { s with methods := s.methods ++ [(name, fn)] } } where
  functions := h.functions
  hoistedFunctions := h.hoistedFunctions
  hoistedStructs e he := by
    obtain ⟨info', d', hinfo', hd', hk, hms⟩ := h.hoistedStructs e he
    rw [Array.getElem?_modify]
    split
    · rename_i hsid
      subst hsid
      rw [hinfo] at hinfo'
      cases hinfo'
      have hdd : Decl.struct d' = Decl.struct d :=
        Decl.eq_of_start_eq hnd hd' hd (by simp only [Decl.start, hk, hkeys e he rfl])
      obtain rfl : d' = d := Decl.struct.inj hdd
      refine ⟨_, d', by rw [hinfo]; rfl, hd', hk, fun j p hp => ?_⟩
      rw [List.getElem?_append] at hp
      split at hp
      · exact hms j p hp
      · rename_i hj
        have hj' : j = info.methods.length := by
          have := (List.getElem?_eq_some_iff.mp hp).1
          simp only [List.length_singleton] at this
          omega
        subst hj'
        simp only [Nat.sub_self, List.getElem?_cons_zero, Option.some.injEq] at hp
        subst hp
        exact ⟨m, f, hm, hf, hspan⟩
    · exact ⟨info', d', hinfo', hd', hk, hms⟩

theorem hoist_method (h : c.Sourced all) (hnd : (all.map Decl.start).Nodup) {sid : Nat}
    {d : StructDecl} (hd : ∀ x ∈ d.decls, x ∈ all)
    (hkeys : ∀ e ∈ c.hoistedStructs, e.2 = sid → e.1 = d.name.span.start) {info : StructInfo}
    (hinfo : c.structs[sid]? = some info) {m : FunDecl}
    (hm : d.methods[info.methods.length]? = some m) {next : Checker}
    (hadds : Checker.Adds { c with
      functions := c.functions.push ⟨m.name.name, [], .void, some sid, m.name.span, none⟩
      hoistedFunctions := (m.name.span.start, c.functions.size) :: c.hoistedFunctions } next)
    (params : List (String × Ty)) (result : Ty) :
    Checker.Sourced all { next with
      functions := next.functions.modify c.functions.size fun f =>
        { f with params := params, result := result }
      structs := next.structs.modify sid fun s =>
        { s with methods := s.methods ++ [(m.name.name, c.functions.size)] } } := by
  have hmd : Decl.fn m ∈ all := hd _ (StructDecl.mem_decls_of_method (List.mem_of_getElem? hm))
  have hnext := ((h.push_function hmd (some sid)).declares (.of_adds hadds)).modify_function
    c.functions.size (fun f => { f with params := params, result := result }) fun _ => ⟨rfl, rfl⟩
  obtain ⟨ds, rfl⟩ := hadds
  refine hnext.add_method hnd (hd _ (StructDecl.mem_decls_self d)) hkeys hinfo hm
    (f := { (⟨m.name.name, [], .void, some sid, m.name.span, none⟩ : FunctionInfo) with
      params := params, result := result }) ?_ rfl m.name.name
  rw [Array.getElem?_modify, if_pos rfl]
  simp

end Checker.Sourced

theorem hoist_sourced {all : List Decl} (hnd : (all.map Decl.start).Nodup) (ss : List Stmt)
    (hss : ∀ x ∈ Stmt.listDecls ss, x ∈ all) (c : Checker) (hc : c.Sourced all) :
    ((hoist ss).run c).2.Sourced all := by
  unfold hoist
  dsimp only
  refine run_forIn_bind (Q := fun r => r.2.Sourced all)
    (fun done acc c' => HoistsDecls c done acc c' ∧ c'.Sourced all) ⟨HoistsDecls.start c, hc⟩ ?_
    fun acc c₁ h₁ => ?_
  · rintro done a rest acc c' hsplit ⟨hd, hs⟩
    have ha : ∀ x ∈ a.decls, x ∈ all := fun x hx => hss x (by
      rw [Stmt.listDecls_eq_flatMap, ← hsplit]
      exact List.mem_flatMap.mpr ⟨a, by simp, hx⟩)
    cases a with
    | structDecl d span =>
      exact ⟨_, rfl, hd.structDecl d span (declare_declares _ _ _),
        (hs.push_struct (ha _ (by simp [Stmt.decls]))).declares (declare_declares _ _ _)⟩
    | fnDecl d span =>
      exact ⟨_, rfl, hd.fnDecl d span (declare_declares _ _ _),
        (hs.push_function (ha _ (by simp [Stmt.decls])) none).declares (declare_declares _ _ _)⟩
    | _ => exact ⟨_, rfl, hd.other _ rfl rfl, hs⟩
  · obtain ⟨h₁, hs₁⟩ := h₁
    rw [← Array.forIn_toList, ← Array.forIn_toList]
    refine run_forIn_bind (Q := fun r => r.2.Sourced all)
      (fun done _ c' => HoistsMembers c₁ done c' ∧ c'.Sourced all) ⟨HoistsMembers.start c₁, hs₁⟩ ?_
      fun _ c₂ h₂ => ?_
    · rintro done p rest u c' hsplit ⟨h, hs⟩
      obtain ⟨d, sid⟩ := p
      rw [run_bind, run_bind]
      dsimp only
      obtain ⟨ds, hds⟩ := ((Quietly.mapM_trivial (fun b => resolveBinding_adds b .null) d.fields) c').1
      generalize (d.fields.mapM fun b => (do pure (b.name.name, (← resolveType b.type).getD .null) :
        CheckM (String × Ty))).run c' = r at hds ⊢
      obtain ⟨fields, read⟩ := r
      dsimp only at hds
      subst hds
      rw [modify_run]
      dsimp only
      have hmem : (d, sid) ∈ acc.1.toList := by rw [← hsplit]; simp
      have hfresh := h₁.struct_fresh hsplit
      obtain ⟨dspan, hdss⟩ := h₁.struct_declared hmem
      have hdall : ∀ x ∈ d.decls, x ∈ all := fun x hx => hss x (by
        rw [Stmt.listDecls_eq_flatMap]
        exact List.mem_flatMap.mpr ⟨_, hdss, by simpa [Stmt.decls] using hx⟩)
      have hkeys := h₁.struct_key (fun _ he => hc.struct_lt he) hmem
      have hempty : c'.structs[sid]? = some ⟨d.name.name, [], []⟩ := by
        rw [h.untouched sid hfresh]
        exact h₁.new_structs _ hmem
      have hstart : (c'.structs.modify sid fun s => { s with fields := fields })[sid]? =
          some ⟨d.name.name, fields, []⟩ := by
        rw [Array.getElem?_modify, if_pos rfl, hempty]
        rfl
      refine run_forIn_bind (Q := fun r => ∃ acc', r.1 = ForInStep.yield acc' ∧
          HoistsMembers c₁ (done ++ [(d, sid)]) r.2 ∧ r.2.Sourced all)
        (fun ms _ c'' => HoistsMethods _ sid ms c'' ∧ c''.Sourced all)
        ⟨HoistsMethods.start _ sid, ?_⟩ ?_ fun _ cm hm => ⟨_, rfl, ?_, hm.2⟩
      · exact (hs.declares (.of_adds ⟨ds, rfl⟩)).modify_struct sid _ fun _ => rfl
      · rintro mdone m mrest u' c'' hmsplit ⟨hm, hsc⟩
        obtain ⟨info, hinfo, hlen⟩ := hm.struct_methods hstart rfl
        obtain ⟨next, params, result, hadds, heq⟩ := resolveSignature_run m c''.functions.size
          { c'' with
            functions := c''.functions.push ⟨m.name.name, [], .void, some sid, m.name.span, none⟩
            hoistedFunctions := (m.name.span.start, c''.functions.size) :: c''.hoistedFunctions }
        refine ⟨_, rfl, ?_⟩
        simp only [run_bind, allocateFunction_run, modify_run]
        rw [heq]
        refine ⟨hm.method m hadds params result, hsc.hoist_method hnd hdall ?_ hinfo ?_ hadds params result⟩
        · intro e he hesid
          exact hkeys e (by rw [← h.hoistedStructs, ← hm.hoistedStructs]; exact he) hesid
        · rw [hlen, ← hmsplit, List.getElem?_append_right (Nat.le_refl _), Nat.sub_self]
          rfl
      · exact h.struct d sid d.name.name hfresh (h₁.new_structs _ hmem) ⟨ds, rfl⟩ fields hm.1
    · refine run_forIn_bind (Q := fun r => r.2.Sourced all) (fun _ _ c' => c'.Sourced all) h₂.2 ?_
        fun _ _ h₃ => h₃
      intro done p rest u c' _ hs
      obtain ⟨d, fn⟩ := p
      obtain ⟨next, params, result, hadds, heq⟩ := resolveSignature_run d fn c'
      refine ⟨_, rfl, ?_⟩
      rw [run_bind, heq]
      exact (hs.declares (.of_adds hadds)).modify_function fn _ fun _ => ⟨rfl, rfl⟩

end Sigh.Typing
