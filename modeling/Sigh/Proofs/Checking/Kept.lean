import Sigh.Proofs.Checking.Bodies
import Sigh.Proofs.Checking.Origins
import Sigh.Proofs.Checking.Silent

namespace Sigh

/-- A statement that checking turns into no statement: a declaration of a function or a struct. -/
def Stmt.isDeclaration : Stmt → Bool
  | .fnDecl .. | .structDecl .. => true
  | _ => false

mutual
/-- The typed statement is what checking keeps of the statement: the same kind of statement at
the same place, with the statements of its blocks kept in order. -/
inductive Stmt.KeptAs : Stmt → Typed.Stmt → Prop
  | block {body : List Stmt} {ts : List Typed.Stmt} {slots : Nat} {span : Span} :
      Stmt.AllKeptAs body ts → Stmt.KeptAs (.block body span) (.block ⟨ts, slots, span⟩ span)
  | var {name : Ident} {type : TypeExpr} {init : Expr} {span : Span} {slot : Nat}
      {value : Typed.Expr} : Stmt.KeptAs (.var name type init span) (.declare slot value span)
  | sizedArray {name : Ident} {element : TypeExpr} {dims : List Nat} {span : Span} {slot : Nat}
      {ty : Ty} : Stmt.KeptAs (.sizedArray name element dims span) (.sizedArray slot ty dims span)
  | ifThen {cond : Expr} {thenBranch : Stmt} {span : Span} {c : Typed.Expr} {t : Typed.Stmt} :
      Stmt.BodyKeptAs thenBranch t →
      Stmt.KeptAs (.ifElse cond thenBranch none span) (.ifElse c t none span)
  | ifElse {cond : Expr} {thenBranch elseBranch : Stmt} {span : Span} {c : Typed.Expr}
      {t e : Typed.Stmt} : Stmt.BodyKeptAs thenBranch t → Stmt.BodyKeptAs elseBranch e →
      Stmt.KeptAs (.ifElse cond thenBranch (some elseBranch) span) (.ifElse c t (some e) span)
  | whileLoop {cond : Expr} {body : Stmt} {span : Span} {c : Typed.Expr} {b : Typed.Stmt} :
      Stmt.BodyKeptAs body b → Stmt.KeptAs (.whileLoop cond body span) (.whileLoop c b span)
  | ret {value : Option Expr} {span : Span} {v : Option Typed.Expr} :
      v.isSome = value.isSome → Stmt.KeptAs (.ret value span) (.ret v span)
  | expr {e : Expr} {span : Span} {e' : Typed.Expr} : Stmt.KeptAs (.expr e span) (.expr e' span)
/-- The typed statement is what checking keeps of the body of an `if` or a loop: a block of its
own, with the statements of the body if it is a block and the body alone if it is not. -/
inductive Stmt.BodyKeptAs : Stmt → Typed.Stmt → Prop
  | block {body : List Stmt} {ts : List Typed.Stmt} {slots : Nat} {span : Span} :
      Stmt.AllKeptAs body ts → Stmt.BodyKeptAs (.block body span) (.block ⟨ts, slots, span⟩ span)
  | single {s : Stmt} {ts : List Typed.Stmt} {slots : Nat} :
      (∀ body span, s ≠ .block body span) → Stmt.AllKeptAs [s] ts →
      Stmt.BodyKeptAs s (.block ⟨ts, slots, s.span⟩ s.span)
/-- The typed statements keep, in order, one statement for each of the statements that is not a
declaration. -/
inductive Stmt.AllKeptAs : List Stmt → List Typed.Stmt → Prop
  | nil : Stmt.AllKeptAs [] []
  | skip {s : Stmt} {ss : List Stmt} {ts : List Typed.Stmt} :
      s.isDeclaration = true → Stmt.AllKeptAs ss ts → Stmt.AllKeptAs (s :: ss) ts
  | keep {s : Stmt} {ss : List Stmt} {t : Typed.Stmt} {ts : List Typed.Stmt} :
      Stmt.KeptAs s t → Stmt.AllKeptAs ss ts → Stmt.AllKeptAs (s :: ss) (t :: ts)
end

theorem Stmt.KeptAs.not_declaration {s : Stmt} {t : Typed.Stmt} (h : s.KeptAs t) :
    s.isDeclaration = false := by
  cases h <;> rfl

theorem Stmt.allKeptAs_iff {ss : List Stmt} {ts : List Typed.Stmt} :
    Stmt.AllKeptAs ss ts ↔ List.Forall₂ Stmt.KeptAs (ss.filter (!·.isDeclaration)) ts := by
  induction ss generalizing ts with
  | nil =>
    constructor
    · intro h
      cases h
      exact .nil
    · intro h
      cases h
      exact .nil
  | cons s ss ih =>
    cases hs : s.isDeclaration with
    | true =>
      simp only [List.filter_cons, hs, Bool.not_true, Bool.false_eq_true, if_false]
      constructor
      · intro h
        cases h with
        | skip _ h => exact ih.mp h
        | keep hk _ => simp [hk.not_declaration] at hs
      · exact fun h => .skip hs (ih.mpr h)
    | false =>
      simp only [List.filter_cons, hs, Bool.not_false, if_true]
      constructor
      · intro h
        cases h with
        | skip hd _ => simp [hd] at hs
        | keep hk h => exact .cons hk (ih.mp h)
      · intro h
        cases h with
        | cons hk h => exact .keep hk (ih.mpr h)

theorem Stmt.AllKeptAs.singleton_append {s : Stmt} {ss : List Stmt} {ts₁ ts₂ : List Typed.Stmt}
    (h₁ : Stmt.AllKeptAs [s] ts₁) (h₂ : Stmt.AllKeptAs ss ts₂) :
    Stmt.AllKeptAs (s :: ss) (ts₁ ++ ts₂) := by
  cases h₁ with
  | skip hd h => cases h; exact .skip hd h₂
  | keep hk h => cases h; exact .keep hk h₂

end Sigh

namespace Sigh.Typing

/-- `c'` has the diagnostics of `c`, and maybe more after them. -/
def Checker.Appends (c c' : Checker) : Prop := ∃ ds, c'.diagnostics = c.diagnostics ++ ds

namespace Checker.Appends

variable {c c₁ c₂ c₃ : Checker}

theorem refl (c : Checker) : c.Appends c := ⟨#[], by simp⟩

theorem trans (h₁ : c.Appends c₁) (h₂ : c₁.Appends c₂) : c.Appends c₂ := by
  obtain ⟨ds₁, h₁⟩ := h₁
  obtain ⟨ds₂, h₂⟩ := h₂
  exact ⟨ds₁ ++ ds₂, by rw [h₂, h₁, Array.append_assoc]⟩

theorem of_eq (h : c₁.diagnostics = c.diagnostics) : c.Appends c₁ := ⟨#[], by simp [h]⟩

theorem of_declares (h : c.Declares c₁) : c.Appends c₁ := by
  obtain ⟨scopes, ds, rfl, -⟩ := h
  exact ⟨ds, rfl⟩

theorem of_adds (h : c.Adds c₁) : c.Appends c₁ := of_declares (.of_adds h)

theorem size_le (h : c.Appends c₁) : c.diagnostics.size ≤ c₁.diagnostics.size := by
  obtain ⟨ds, h⟩ := h
  simp [h]

theorem declares_after (h : c.Appends c₁) (h₂ : c₂.Declares c₃)
    (h₁ : c₂.diagnostics = c₁.diagnostics) : c.Appends c₃ :=
  h.trans ((of_eq h₁).trans (of_declares h₂))

theorem quiet_left (h₁ : c.Appends c₁) (h₂ : c₁.Appends c₂) (hq : c.Quiet c₂) : c.Quiet c₁ :=
  hq.left h₁.size_le h₂.size_le

theorem quiet_right (h₁ : c.Appends c₁) (h₂ : c₁.Appends c₂) (hq : c.Quiet c₂) : c₁.Quiet c₂ :=
  hq.right h₁.size_le h₂.size_le

end Checker.Appends

theorem forIn_appends {α σ : Type} {xs : List α} {init : σ} {f : α → σ → CheckM (ForInStep σ)}
    (hf : ∀ a s c, ∃ s', ((f a s).run c).1 = .yield s' ∧ c.Appends ((f a s).run c).2)
    (c : Checker) : c.Appends ((forIn xs init f).run c).2 :=
  forIn_run_inv (fun _ _ c' => c.Appends c')
    (fun _ a _ s c' _ h => (hf a s c').imp fun _ hs => ⟨hs.1, h.trans hs.2⟩) xs [] init c rfl
    (.refl c)

theorem resolveSignature_appends (d : FunDecl) (fn : Nat) (c : Checker) :
    c.Appends ((resolveSignature d fn).run c).2 := by
  obtain ⟨c₁, params, result, hadds, heq⟩ := resolveSignature_run d fn c
  rw [heq]
  exact (Checker.Appends.of_adds hadds).trans (.of_eq rfl)

theorem hoist_appends (ss : List Stmt) (c : Checker) : c.Appends ((hoist ss).run c).2 := by
  unfold hoist
  dsimp only
  refine run_forIn_bind (Q := fun r => c.Appends r.2) (fun _ _ c' => c.Appends c') (.refl c) ?_
    fun acc c₁ h₁ => ?_
  · intro done a rest acc c' _ h
    cases a with
    | structDecl d span => exact ⟨_, rfl, h.declares_after (declare_declares _ _ _) rfl⟩
    | fnDecl d span => exact ⟨_, rfl, h.declares_after (declare_declares _ _ _) rfl⟩
    | _ => exact ⟨_, rfl, h⟩
  · rw [← Array.forIn_toList, ← Array.forIn_toList]
    refine run_forIn_bind (Q := fun r => c.Appends r.2) (fun _ _ c' => c.Appends c') h₁ ?_
      fun _ c₂ h₂ => ?_
    · intro done p rest u c' _ h
      obtain ⟨d, sid⟩ := p
      rw [run_bind, run_bind]
      refine ⟨_, rfl, ?_⟩
      rw [run_bind, run_pure]
      refine h.trans ((Checker.Appends.of_adds
        ((Quietly.mapM_trivial (fun b => resolveBinding_adds b .null) d.fields) c').1).trans
        ((Checker.Appends.of_eq rfl).trans (forIn_appends (fun m _ c'' => ?_) _)))
      refine ⟨_, rfl, ?_⟩
      simp only [run_bind, allocateFunction_run, modify_run]
      exact (Checker.Appends.of_eq rfl).trans ((resolveSignature_appends m c''.functions.size
        { c'' with
          functions := c''.functions.push ⟨m.name.name, [], .void, some sid, m.name.span, none⟩
          hoistedFunctions := (m.name.span.start, c''.functions.size) :: c''.hoistedFunctions }).trans
        (.of_eq rfl))
    · refine run_forIn_bind (Q := fun r => c.Appends r.2) (fun _ _ c' => c.Appends c') h₂ ?_
        fun _ _ h₃ => h₃
      intro done p rest u c' _ h
      exact ⟨_, rfl, by rw [run_bind]; exact h.trans (resolveSignature_appends _ _ _)⟩

/-- Every body recorded in the state is the checked body of the declaration of its function: the
function is named and placed as a declaration of `all`, and its body is at the place of that
declaration's body and keeps its statements. -/
def Checker.KeptBodies (all : List Decl) (c : Checker) : Prop :=
  ∀ (i : Nat) (f : FunctionInfo) (b : Typed.Block), c.functions[i]? = some f → f.body = some b →
    ∃ d : FunDecl, Decl.fn d ∈ all ∧ f.name = d.name.name ∧ f.span = d.name.span ∧
      b.span = d.bodySpan ∧ Stmt.AllKeptAs d.body b.statements

theorem Checker.KeptBodies.congr {all : List Decl} {c c' : Checker} (h : c.KeptBodies all)
    (hf : c'.functions = c.functions) : c'.KeptBodies all := by
  intro i f b hi hb
  rw [hf] at hi
  exact h i f b hi hb

theorem Checker.KeptBodies.hoisted {all : List Decl} {ss : List Stmt} {c c' : Checker}
    (h : c.KeptBodies all) (hh : Hoisted ss c c') : c'.KeptBodies all := by
  intro i f b hi hb
  by_cases hlt : i < c.functions.size
  · rw [hh.old_functions i hlt] at hi
    exact h i f b hi hb
  · rw [hh.new_functions i f (by omega) hi] at hb
    cases hb

/-- What a check from `c` to `c'` keeps. It only adds diagnostics and keeps the names and places
of the functions, and `out` holds when it adds none. When `inside` holds, from a state that knows
only the declarations `all` it leaves one, and when it adds no diagnostic it records only bodies
that keep their declarations. -/
structure Checker.Keeps (all : List Decl) (inside : Prop) (c c' : Checker) (out : Prop) : Prop where
  appends : c.Appends c'
  functions : ∀ (i : Nat) (f : FunctionInfo), c.functions[i]? = some f →
    ∃ f' : FunctionInfo, c'.functions[i]? = some f' ∧ f'.name = f.name ∧ f'.span = f.span
  kept : c.Quiet c' → out
  sourced : inside → c.Sourced all → c'.Sourced all
  bodies : inside → c.Sourced all → c.Quiet c' → c.KeptBodies all → c'.KeptBodies all

namespace Checker.Keeps

variable {all : List Decl} {inside inside' : Prop} {c c₁ c₂ : Checker} {out out' out'' : Prop}

theorem trans (h₁ : Keeps all inside c c₁ out) (h₂ : Keeps all inside c₁ c₂ out')
    (hout : out → out' → out'') : Keeps all inside c c₂ out'' where
  appends := h₁.appends.trans h₂.appends
  functions i f hf := by
    obtain ⟨f₁, hf₁, hn₁, hs₁⟩ := h₁.functions i f hf
    obtain ⟨f₂, hf₂, hn₂, hs₂⟩ := h₂.functions i f₁ hf₁
    exact ⟨f₂, hf₂, hn₂.trans hn₁, hs₂.trans hs₁⟩
  kept hq := hout (h₁.kept (h₁.appends.quiet_left h₂.appends hq))
    (h₂.kept (h₁.appends.quiet_right h₂.appends hq))
  sourced hi hs := h₂.sourced hi (h₁.sourced hi hs)
  bodies hi hs hq hb := h₂.bodies hi (h₁.sourced hi hs) (h₁.appends.quiet_right h₂.appends hq)
    (h₁.bodies hi hs (h₁.appends.quiet_left h₂.appends hq) hb)

theorem mono (h : Keeps all inside c c₁ out) (hout : out → out') : Keeps all inside c c₁ out' :=
  { h with kept := fun hq => hout (h.kept hq) }

theorem weaken (h : Keeps all inside' c c₁ out) (hin : inside → c.Sourced all → inside') :
    Keeps all inside c c₁ out :=
  { h with
    sourced := fun hi hs => h.sourced (hin hi hs) hs
    bodies := fun hi hs => h.bodies (hin hi hs) hs }

theorem of_scopes (scopes : Scopes) (ds : Array Diagnostic)
    (hout : c.Quiet { c with scopes := scopes, diagnostics := c.diagnostics ++ ds } → out) :
    Keeps all inside c { c with scopes := scopes, diagnostics := c.diagnostics ++ ds } out where
  appends := ⟨ds, rfl⟩
  functions _ f hf := ⟨f, hf, rfl, rfl⟩
  kept := hout
  sourced _ hs := hs.congr (fun _ => rfl) (fun _ => rfl) rfl rfl
  bodies _ _ _ hb := hb.congr rfl

theorem of_declares (h : c.Declares c₁) (hout : c.Quiet c₁ → out) : Keeps all inside c c₁ out := by
  obtain ⟨scopes, ds, rfl, -⟩ := h
  exact of_scopes scopes ds hout

theorem scopes (c : Checker) (scopes : Scopes) :
    Keeps all inside c { c with scopes := scopes } True := by
  have h : Keeps all inside c { c with scopes := scopes, diagnostics := c.diagnostics ++ #[] } True :=
    of_scopes scopes #[] fun _ => trivial
  simpa using h

theorem of_quietly {α : Type} {p : α → Prop} {x : CheckM α} (hx : Quietly p x) (c : Checker) :
    Keeps all inside c (x.run c).2 (p (x.run c).1) :=
  of_declares (.of_adds (hx c).1) (hx c).2

end Checker.Keeps

variable {all : List Decl}

theorem enterScope_keeps (hnd : (all.map Decl.start).Nodup) (k : ScopeKind) (ss : List Stmt)
    (c : Checker) :
    Checker.Keeps all (Stmt.listDecls ss ⊆ all) c ((enterScope k ss).run c).2 True := by
  let pushed : Checker := { c with scopes := c.scopes.push k }
  have hh := hoist_hoisted ss pushed
  rw [enterScope_run]
  refine { appends := ((Checker.Appends.of_eq rfl).trans (hoist_appends ss pushed)).trans (.of_eq rfl)
           functions := fun i f hf => ⟨f, ?_, rfl, rfl⟩
           kept := fun _ => trivial
           sourced := fun hi hs => ?_
           bodies := fun _ _ _ hb => ?_ }
  · rw [hh.old_functions i (Array.getElem?_eq_some_iff.mp hf).1]
    exact hf
  · have hs' : Checker.Sourced all ((hoist ss).run pushed).2 :=
      hoist_sourced hnd ss hi pushed (hs.congr (fun _ => rfl) (fun _ => rfl) rfl rfl)
    exact hs'.congr (fun _ => rfl) (fun _ => rfl) rfl rfl
  · have hp : Checker.KeptBodies all pushed := hb.congr rfl
    have hb' : Checker.KeptBodies all ((hoist ss).run pushed).2 := hp.hoisted hh
    exact hb'.congr rfl

theorem checkVar_kept {name : Ident} {type : TypeExpr} {init : Expr} {span : Span} {c : Checker}
    (hq : c.Quiet ((checkVar name type init span).run c).2) :
    ∃ slot value, ((checkVar name type init span).run c).1 = some (.declare slot value span) := by
  unfold checkVar at hq ⊢
  simp only [run_bind] at hq ⊢
  obtain ⟨h₁, hq₁⟩ := checkExpr_quietly init c
  generalize (checkExpr init).run c = r₁ at h₁ hq₁ hq ⊢
  obtain ⟨value, c₁⟩ := r₁
  obtain ⟨h₂, hq₂⟩ := resolveType_quietly type c₁
  generalize (resolveType type).run c₁ = r₂ at h₂ hq₂ hq ⊢
  obtain ⟨ty, c₂⟩ := r₂
  have h₃ := declareVariable_declares name (ty.getD .null) c₂
  generalize (declareVariable name (ty.getD .null)).run c₂ = r₃ at h₃ hq ⊢
  obtain ⟨slot, c₃⟩ := r₃
  have hs₁ := h₁.size_le
  have hs₂ := h₂.size_le
  have hs₃ := h₃.size_le
  dsimp only at hq₁ hq₂ hq hs₁ hs₂ hs₃ ⊢
  split
  · dsimp only at hq
    split
    · rename_i hnot
      rw [if_pos hnot, run_bind, report_run] at hq
      simp only [Checker.Quiet, run_pure, Array.size_push] at hq
      omega
    · exact ⟨slot, _, rfl⟩
  · rename_i hnone
    simp only [Checker.Quiet, run_pure] at hq
    have hv := hq₁ (by omega)
    have ht := hq₂ (by omega)
    obtain ⟨v, rfl⟩ := Option.isSome_iff_exists.mp hv
    obtain ⟨t, rfl⟩ := Option.isSome_iff_exists.mp ht
    exact (hnone v t rfl rfl).elim

theorem checkReturn_quietly (span : Span) (value : Option Expr) :
    Quietly (fun r => ∃ v : Option Typed.Expr, r = some v ∧ v.isSome = value.isSome)
      (checkReturn span value) := by
  unfold checkReturn
  extract_lets jp
  have hjp : ∀ v : Option Typed.Expr, Quietly
      (fun r => v.isSome = value.isSome → ∃ v' : Option Typed.Expr, r = some v' ∧
        v'.isSome = value.isSome) (jp (some v)) := by
    intro v
    simp only [jp]
    refine Quietly.bind_reads (fun _ => rfl) fun c => ?_
    split
    · cases v with
      | some e =>
        dsimp only
        split
        · exact Quietly.report_bind fun _ => Quietly.pure trivial
        · exact Quietly.pure fun hs => ⟨some e, rfl, hs⟩
      | none => exact Quietly.pure fun hs => ⟨none, rfl, hs⟩
    · refine Quietly.bind_reads (fun _ => rfl) fun info => ?_
      cases v with
      | some e =>
        dsimp only
        split
        · exact Quietly.report_bind fun _ => Quietly.pure trivial
        · split
          · exact Quietly.report_bind fun _ => Quietly.pure trivial
          · exact Quietly.pure fun hs => ⟨some _, rfl, hs⟩
      | none =>
        dsimp only
        split
        · exact Quietly.report_bind fun _ => Quietly.pure trivial
        · exact Quietly.pure fun hs => ⟨none, rfl, hs⟩
  cases value with
  | some e =>
    refine (checkExpr_quietly e).bind fun r => ?_
    rw [pure_bind]
    rcases r with _ | te
    · exact Quietly.pure fun h => absurd h (by simp)
    · exact (hjp (some te)).mono fun _ h _ => h rfl
  | none =>
    rw [pure_bind]
    exact (hjp none).mono fun _ h => h rfl

/-- What checking statement `s` from any state keeps. -/
def StmtKeeps (all : List Decl) (s : Stmt) : Prop :=
  ∀ c : Checker, Checker.Keeps all (s.decls ⊆ all) c ((checkStmt s).run c).2
    (Stmt.AllKeptAs [s] ((checkStmt s).run c).1.toList)

/-- What checking statements `ss` in order from any state keeps. -/
def StmtsKeeps (all : List Decl) (ss : List Stmt) : Prop :=
  ∀ c : Checker, Checker.Keeps all (Stmt.listDecls ss ⊆ all) c ((checkStmts ss).run c).2
    (Stmt.AllKeptAs ss ((checkStmts ss).run c).1)

/-- What checking `s` as the body of an `if` or a loop keeps. -/
def BodyKeeps (all : List Decl) (s : Stmt) : Prop :=
  ∀ c : Checker, Checker.Keeps all (s.decls ⊆ all) c ((checkBody s).run c).2
    (Stmt.BodyKeptAs s ((checkBody s).run c).1)

/-- Function `fn` is numbered and named where `d` is declared. -/
def Checker.Names (c : Checker) (fn : Nat) (d : FunDecl) : Prop :=
  ∃ f : FunctionInfo, c.functions[fn]? = some f ∧ f.span = d.name.span

theorem Checker.Keeps.names {inside out : Prop} {c c' : Checker} (h : c.Keeps all inside c' out)
    {fn : Nat} {d : FunDecl} (hn : c.Names fn d) : c'.Names fn d := by
  obtain ⟨f, hf, hs⟩ := hn
  obtain ⟨f', hf', -, hs'⟩ := h.functions fn f hf
  exact ⟨f', hf', hs'.trans hs⟩

/-- Checking the body of `d` as function `fn`, which is named where `d` is declared, records the
checked body of `d`. -/
def FunctionKeeps (all : List Decl) (d : FunDecl) (fn : Nat) : Prop :=
  ∀ c : Checker, Checker.Keeps all (d.decls ⊆ all ∧ c.Names fn d) c
    ((checkFunction d fn).run c).2 True

/-- Checking methods `ms` as functions `fns`, each named where its method is declared. -/
def MethodsKeeps (all : List Decl) (ms : List FunDecl) (fns : List Nat) : Prop :=
  ∀ c : Checker, Checker.Keeps all (FunDecl.listDecls ms ⊆ all ∧
      ∀ (j fn : Nat) (m : FunDecl), ms[j]? = some m → fns[j]? = some fn → c.Names fn m) c
    ((checkMethods ms fns).run c).2 True

/-- Checking the methods of struct `d`. -/
def StructKeeps (all : List Decl) (d : StructDecl) : Prop :=
  ∀ c : Checker, Checker.Keeps all (d.decls ⊆ all) c ((checkStruct d).run c).2 True

theorem checkStmt_var_keeps (name : Ident) (type : TypeExpr) (init : Expr) (span : Span) :
    StmtKeeps all (.var name type init span) := by
  intro c
  rw [checkStmt.eq_2]
  refine .of_declares (checkVar_declares name type init span c).1 fun hq => ?_
  obtain ⟨slot, value, h⟩ := checkVar_kept hq
  rw [h]
  exact .keep .var .nil

theorem checkStmt_sizedArray_keeps (name : Ident) (element : TypeExpr) (dims : List Nat)
    (span : Span) : StmtKeeps all (.sizedArray name element dims span) := by
  intro c
  rw [checkStmt.eq_3]
  simp only [run_bind]
  obtain ⟨h₁, hq₁⟩ := resolveType_quietly element c
  generalize (resolveType element).run c = r₁ at h₁ hq₁ ⊢
  obtain ⟨ty, c₁⟩ := r₁
  cases ty with
  | none => exact .of_declares (.of_adds h₁) fun hq => absurd (hq₁ hq) (by simp)
  | some el =>
    exact .of_declares ((Checker.Declares.of_adds h₁).trans (declareVariable_declares _ _ _))
      fun _ => .keep .sizedArray .nil

theorem checkStmt_ret_keeps (value : Option Expr) (span : Span) : StmtKeeps all (.ret value span) := by
  intro c
  rw [checkStmt.eq_8]
  have hx : Quietly (fun r => Stmt.AllKeptAs [.ret value span] r.toList)
      (do pure ((← checkReturn span value).map fun v => Typed.Stmt.ret v span)) :=
    (checkReturn_quietly span value).bind fun r => Quietly.pure fun hq => by
      obtain ⟨v, hr, hv⟩ := hq
      rw [hr]
      exact .keep (.ret hv) .nil
  exact .of_quietly hx c

theorem checkStmt_expr_keeps (e : Expr) (span : Span) : StmtKeeps all (.expr e span) := by
  intro c
  rw [checkStmt.eq_9]
  have hx : Quietly (fun r => Stmt.AllKeptAs [.expr e span] r.toList)
      (do pure ((← checkExpr e).map fun e => Typed.Stmt.expr e span)) :=
    (checkExpr_quietly e).bind fun r => Quietly.pure fun hr => by
      obtain ⟨te, rfl⟩ := Option.isSome_iff_exists.mp hr
      exact .keep .expr .nil
  refine .of_quietly
    (p := fun r : Option Typed.Stmt => Stmt.AllKeptAs [.expr e span] r.toList) ?_ c
  split
  · exact Quietly.report_bind fun _ => hx.mono fun _ _ => trivial
  · exact hx

theorem checkStmts_nil_keeps : StmtsKeeps all [] := by
  intro c
  rw [checkStmts.eq_1]
  exact .of_declares (.refl c) fun _ => .nil

theorem checkStmts_cons_keeps (s : Stmt) (rest : List Stmt) (ihs : StmtKeeps all s)
    (ihr : StmtsKeeps all rest) : StmtsKeeps all (s :: rest) := by
  intro c
  rw [checkStmts.eq_2]
  simp only [run_bind, run_pure]
  have hs := ihs c
  generalize (checkStmt s).run c = r₁ at hs ⊢
  obtain ⟨r, c₁⟩ := r₁
  have hr := ihr c₁
  generalize (checkStmts rest).run c₁ = r₂ at hr ⊢
  obtain ⟨rs, c₂⟩ := r₂
  refine ((hs.weaken fun hi _ => ?_).trans (hr.weaken fun hi _ => ?_)
    Stmt.AllKeptAs.singleton_append)
  · exact fun x hx => hi (by simp [Stmt.listDecls, hx])
  · exact fun x hx => hi (by simp [Stmt.listDecls, hx])

theorem checkStmt_ifElse_keeps (cond : Expr) (thenBranch : Stmt) (elseBranch : Option Stmt)
    (span : Span) (iht : BodyKeeps all thenBranch)
    (ihe : match elseBranch with | some e => BodyKeeps all e | none => True) :
    StmtKeeps all (.ifElse cond thenBranch elseBranch span) := by
  intro c
  rw [checkStmt.eq_6]
  have h₁ : Checker.Keeps all ((Stmt.ifElse cond thenBranch elseBranch span).decls ⊆ all) c
      ((checkCondition cond "If").run c).2 ((checkCondition cond "If").run c).1.isSome :=
    .of_quietly (checkCondition_quietly cond "If") c
  cases elseBranch with
  | none =>
    simp only [run_bind, run_pure]
    generalize (checkCondition cond "If").run c = r₁ at h₁ ⊢
    obtain ⟨cv, c₁⟩ := r₁
    have h₂ := iht c₁
    generalize (checkBody thenBranch).run c₁ = r₂ at h₂ ⊢
    obtain ⟨t, c₂⟩ := r₂
    refine h₁.trans (h₂.weaken fun hi _ => ?_) fun hc ht => ?_
    · simpa [Stmt.decls, Stmt.optionDecls] using hi
    · obtain ⟨cv, rfl⟩ := Option.isSome_iff_exists.mp hc
      exact .keep (.ifThen ht) .nil
  | some e =>
    simp only [run_bind, run_pure]
    generalize (checkCondition cond "If").run c = r₁ at h₁ ⊢
    obtain ⟨cv, c₁⟩ := r₁
    have h₂ := iht c₁
    generalize (checkBody thenBranch).run c₁ = r₂ at h₂ ⊢
    obtain ⟨t, c₂⟩ := r₂
    have h₃ := ihe c₂
    generalize (checkBody e).run c₂ = r₃ at h₃ ⊢
    obtain ⟨te, c₃⟩ := r₃
    refine (h₁.trans (h₂.weaken fun hi _ => ?_) And.intro).trans (h₃.weaken fun hi _ => ?_)
      fun hct he => ?_
    · exact fun x hx => hi (by simp [Stmt.decls, hx])
    · exact fun x hx => hi (by simp [Stmt.decls, Stmt.optionDecls, hx])
    · obtain ⟨hc, ht⟩ := hct
      obtain ⟨cv, rfl⟩ := Option.isSome_iff_exists.mp hc
      exact .keep (.ifElse ht he) .nil

theorem checkStmt_whileLoop_keeps (cond : Expr) (body : Stmt) (span : Span)
    (ih : BodyKeeps all body) : StmtKeeps all (.whileLoop cond body span) := by
  intro c
  rw [checkStmt.eq_7]
  simp only [run_bind, run_pure]
  have h₁ : Checker.Keeps all ((Stmt.whileLoop cond body span).decls ⊆ all) c
      ((checkCondition cond "While").run c).2 ((checkCondition cond "While").run c).1.isSome :=
    .of_quietly (checkCondition_quietly cond "While") c
  generalize (checkCondition cond "While").run c = r₁ at h₁ ⊢
  obtain ⟨cv, c₁⟩ := r₁
  have h₂ := ih c₁
  generalize (checkBody body).run c₁ = r₂ at h₂ ⊢
  obtain ⟨b, c₂⟩ := r₂
  refine h₁.trans (h₂.weaken fun hi _ => by simpa [Stmt.decls] using hi) fun hc hb => ?_
  obtain ⟨cv, rfl⟩ := Option.isSome_iff_exists.mp hc
  exact .keep (.whileLoop hb) .nil

section Steps

variable (hnd : (all.map Decl.start).Nodup)
include hnd

theorem Checker.Sourced.name_eq {c : Checker} (hs : c.Sourced all) {d : FunDecl}
    (hd : Decl.fn d ∈ all) {i : Nat} {f : FunctionInfo} (hf : c.functions[i]? = some f)
    (hstart : f.span.start = d.name.span.start) : f.name = d.name.name ∧ f.span = d.name.span := by
  obtain ⟨d', hd', hn, hsp⟩ := hs.functions i f hf
  have h : Decl.fn d' = Decl.fn d := Decl.eq_of_start_eq hnd hd' hd (by
    simp only [Decl.start]
    rw [← hsp, hstart])
  obtain rfl := Decl.fn.inj h
  exact ⟨hn, hsp⟩

theorem Checker.Keeps.record_body {inside : Prop} {c c' : Checker} {fn : Nat} {b : Typed.Block}
    (d : FunDecl) (h : c.Keeps all inside c' (Stmt.AllKeptAs d.body b.statements))
    (hb : b.span = d.bodySpan) (hin : inside → Decl.fn d ∈ all ∧ c.Names fn d) :
    c.Keeps all inside ((setBody fn b).run c').2 True := by
  rw [setBody_run]
  have hsame : SameNames c'.functions (c'.functions.modify fn fun f => { f with body := some b }) :=
    sameNames_modify _ fn _ fun _ => ⟨rfl, rfl⟩
  refine { appends := h.appends.trans (.of_eq rfl)
           functions := fun i f hf => ?_
           kept := fun _ => trivial
           sourced := fun hi hs => (h.sourced hi hs).modify_function fn _ fun _ => ⟨rfl, rfl⟩
           bodies := fun hi hs hq hkb i f b' hf hb' => ?_ }
  · obtain ⟨f₁, hf₁, hn₁, hs₁⟩ := h.functions i f hf
    obtain ⟨f₂, hf₂, hn₂, hs₂⟩ := hsame.get hf₁
    exact ⟨f₂, hf₂, hn₂.trans hn₁, hs₂.trans hs₁⟩
  · have hq' : c.Quiet c' := hq
    rw [Array.getElem?_modify] at hf
    split at hf
    · rename_i hfn
      subst hfn
      obtain ⟨f₀, hf₀, rfl⟩ := Option.map_eq_some_iff.mp hf
      obtain rfl : b = b' := Option.some.inj hb'
      obtain ⟨hd, g, hg, hgs⟩ := hin hi
      obtain ⟨g', hg', hn', hs'⟩ := h.functions fn g hg
      rw [hf₀, Option.some.injEq] at hg'
      subst hg'
      obtain ⟨hn, hsp⟩ := hs.name_eq hnd hd hg (by rw [hgs])
      exact ⟨d, hd, hn'.trans hn, hs'.trans hsp, hb, h.kept hq'⟩
    · exact h.bodies hi hs hq' hkb i f b' hf hb'

theorem checkStmt_block_keeps (body : List Stmt) (span : Span) (ih : StmtsKeeps all body) :
    StmtKeeps all (.block body span) := by
  intro c
  rw [checkStmt.eq_1]
  simp only [run_bind, popScope_run, run_pure]
  have he := enterScope_keeps hnd .block body c
  generalize ((enterScope .block body).run c).2 = c₁ at he ⊢
  have hs := ih c₁
  generalize (checkStmts body).run c₁ = r at hs ⊢
  obtain ⟨ss, c₂⟩ := r
  exact ((he.trans hs fun _ h => h).trans (.scopes c₂ _) fun h _ => .keep (.block h) .nil).weaken
    fun hi _ => by simpa [Stmt.decls] using hi

theorem checkBody_block_keeps (body : List Stmt) (span : Span) (ih : StmtsKeeps all body) :
    BodyKeeps all (.block body span) := by
  intro c
  rw [checkBody.eq_1]
  simp only [run_bind, popScope_run, run_pure]
  have he := enterScope_keeps hnd .block body c
  generalize ((enterScope .block body).run c).2 = c₁ at he ⊢
  have hs := ih c₁
  generalize (checkStmts body).run c₁ = r at hs ⊢
  obtain ⟨ss, c₂⟩ := r
  exact ((he.trans hs fun _ h => h).trans (.scopes c₂ _) fun h _ => .block h).weaken
    fun hi _ => by simpa [Stmt.decls] using hi

theorem checkBody_other_keeps (other : Stmt)
    (hne : ∀ body span, other = .block body span → False) (ih : StmtKeeps all other) :
    BodyKeeps all other := by
  intro c
  rw [checkBody.eq_2 other hne]
  simp only [run_bind, popScope_run, run_pure]
  have he := enterScope_keeps hnd .block [other] c
  generalize ((enterScope .block [other]).run c).2 = c₁ at he ⊢
  have hs := ih c₁
  generalize (checkStmt other).run c₁ = r at hs ⊢
  obtain ⟨t, c₂⟩ := r
  refine ((he.weaken fun hi _ => by simpa [Stmt.listDecls] using hi).trans hs fun _ h => h).trans
    (.scopes c₂ _) fun h _ => .single hne h

theorem checkStmt_fnDecl_keeps (d : FunDecl) (span : Span) (ih : ∀ fn, FunctionKeeps all d fn) :
    StmtKeeps all (.fnDecl d span) := by
  intro c
  rw [checkStmt.eq_4]
  simp only [run_bind, get_run]
  split
  next fn hfn =>
    simp only [run_bind, run_pure]
    refine ((ih fn c).weaken fun hi hs => ⟨by simpa [Stmt.decls] using hi, ?_⟩).mono
      fun _ => .skip rfl .nil
    obtain ⟨f, hf, hstart⟩ := hs.hoistedFunctions _ (mem_of_lookup_eq_some hfn)
    exact ⟨f, hf, (hs.name_eq hnd (hi (by simp [Stmt.decls])) hf hstart).2⟩
  next => exact .of_declares (.refl c) fun _ => .skip rfl .nil

theorem checkFunction_keeps (name : Ident) (params : List Binding) (result : Option TypeExpr)
    (body : List Stmt) (bodySpan : Span) (fn : Nat) (ih : StmtsKeeps all body) :
    FunctionKeeps all ⟨name, params, result, body, bodySpan⟩ fn := by
  intro c
  rw [checkFunction.eq_1, run_bind, pushScope_run, run_bind, functionInfo_run]
  dsimp only
  refine run_bind_of (P := fun r => Checker.Keeps all _ c r.2 True)
    (fun r => Checker.Declares _ r.2)
    (forIn_declares (fun _ c' => ⟨rfl, declareVariable_declares _ _ c'⟩) _)
    fun _ c₂ h₂ => ?_
  rw [run_bind]
  have he := enterScope_keeps hnd .block body c₂
  generalize ((enterScope .block body).run c₂).2 = c₃ at he ⊢
  rw [run_bind]
  have hs := ih c₃
  generalize (checkStmts body).run c₃ = r at hs ⊢
  obtain ⟨ss, c₄⟩ := r
  rw [run_bind, popScope_run, run_bind, popScope_run, run_bind, functionInfo_run]
  dsimp only
  have hpre : Checker.Keeps all
      (FunDecl.decls ⟨name, params, result, body, bodySpan⟩ ⊆ all ∧
        c.Names fn ⟨name, params, result, body, bodySpan⟩)
      c { c₄ with scopes := c₄.scopes.pop.2.pop.2 } (Stmt.AllKeptAs body ss) :=
    (((Checker.Keeps.scopes c _).trans (.of_declares h₂ fun _ => trivial) fun _ _ => trivial).trans
      ((he.trans hs fun _ h => h).weaken fun hi _ => fun x hx => hi.1 (by simp [FunDecl.decls, hx]))
      fun _ h => h).trans (.scopes c₄ _) fun h _ => h
  have hin : FunDecl.decls ⟨name, params, result, body, bodySpan⟩ ⊆ all ∧
      c.Names fn ⟨name, params, result, body, bodySpan⟩ →
      Decl.fn ⟨name, params, result, body, bodySpan⟩ ∈ all ∧
        c.Names fn ⟨name, params, result, body, bodySpan⟩ :=
    fun hi => ⟨hi.1 (FunDecl.mem_decls_self _), hi.2⟩
  split
  · rw [run_bind]
    exact (hpre.trans (.of_declares (.of_adds (report_adds _ _ _)) fun _ => trivial)
      fun h _ => h).record_body hnd ⟨name, params, result, body, bodySpan⟩ rfl hin
  · exact hpre.record_body hnd ⟨name, params, result, body, bodySpan⟩ rfl hin

theorem checkStruct_keeps (name : Ident) (fields : List Binding) (methods : List FunDecl)
    (ih : ∀ info : StructInfo, MethodsKeeps all methods (info.methods.map (·.2))) :
    StructKeeps all ⟨name, fields, methods⟩ := by
  intro c
  rw [checkStruct.eq_1, run_bind, get_run]
  dsimp only
  split
  next => exact .of_declares (.refl c) fun _ => trivial
  next sid hsid =>
    rw [run_bind, pushScope_run, run_bind, structInfo_run]
    dsimp only
    refine run_bind_of (P := fun r => Checker.Keeps all _ c r.2 True)
      (fun r => Checker.Declares _ r.2)
      (forIn_declares (fun _ c' => ⟨rfl, declare_declares _ _ c'⟩) _)
      fun _ c₂ h₂ => ?_
    refine run_bind_of (P := fun r => Checker.Keeps all _ c r.2 True) (fun r => c₂.Declares r.2)
      (forIn_declares (fun _ c' => ⟨rfl, declare_declares _ _ c'⟩) _) fun _ c₃ h₃ => ?_
    have hd := h₂.trans h₃
    rw [run_bind]
    have hm := ih (c.structs[sid]?.getD default) c₃
    generalize (checkMethods methods _).run c₃ = r at hm ⊢
    obtain ⟨_, c₄⟩ := r
    rw [run_bind, popScope_run, run_pure]
    dsimp only
    refine ((Checker.Keeps.scopes c _).trans (.of_declares hd fun _ => trivial)
      fun _ _ => trivial).trans ((hm.weaken fun hi hs => ⟨?_, ?_⟩).trans (.scopes c₄ _)
        fun _ _ => trivial) fun _ _ => trivial
    · exact fun x hx => hi (by simp [StructDecl.decls, hx])
    · intro j fn m hmj hfn
      obtain ⟨scopes, ds, rfl, -⟩ := hd
      obtain ⟨info, d, hinfo, hd, hk, hms⟩ := hs.hoistedStructs _ (mem_of_lookup_eq_some hsid)
      have hdd : Decl.struct d = Decl.struct ⟨name, fields, methods⟩ :=
        Decl.eq_of_start_eq hnd hd (hi (StructDecl.mem_decls_self _)) hk
      obtain rfl := Decl.struct.inj hdd
      simp only at hinfo
      rw [hinfo, Option.getD_some, List.getElem?_map] at hfn
      obtain ⟨p, hp, rfl⟩ := Option.map_eq_some_iff.mp hfn
      obtain ⟨m', f, hm', hf, hsp⟩ := hms j p hp
      obtain rfl : m = m' := Option.some.inj (hmj.symm.trans hm')
      exact ⟨f, hf, hsp⟩

end Steps

theorem checkStmt_structDecl_keeps (d : StructDecl) (span : Span) (ih : StructKeeps all d) :
    StmtKeeps all (.structDecl d span) := by
  intro c
  rw [checkStmt.eq_5]
  simp only [run_bind, run_pure]
  exact ((ih c).weaken fun hi _ => by simpa [Stmt.decls] using hi).mono fun _ => .skip rfl .nil

theorem checkMethods_cons_keeps (m : FunDecl) (ms : List FunDecl) (fn : Nat) (fns : List Nat)
    (ihm : FunctionKeeps all m fn) (ihms : MethodsKeeps all ms fns) :
    MethodsKeeps all (m :: ms) (fn :: fns) := by
  intro c
  rw [checkMethods.eq_1]
  simp only [run_bind]
  have hm := ihm c
  generalize (checkFunction m fn).run c = r₁ at hm ⊢
  obtain ⟨u, c₁⟩ := r₁
  refine (hm.weaken fun hi _ => ⟨?_, hi.2 0 fn m rfl rfl⟩).trans
    ((ihms c₁).weaken fun hi _ => ⟨?_, fun j fn' m' hj hfn => hm.names (hi.2 (j + 1) fn' m' hj hfn)⟩)
    fun _ _ => trivial
  · exact fun x hx => hi.1 (by simp [FunDecl.listDecls, hx])
  · exact fun x hx => hi.1 (by simp [FunDecl.listDecls, hx])

theorem checkMethods_other_keeps (ms : List FunDecl) (fns : List Nat)
    (hne : ∀ m ms' fn fns', ms = m :: ms' → fns = fn :: fns' → False) : MethodsKeeps all ms fns := by
  intro c
  rw [checkMethods.eq_2 ms fns hne]
  exact .of_declares (.refl c) fun _ => trivial

theorem checks_keep (hnd : (all.map Decl.start).Nodup) :
    (∀ s, StmtKeeps all s) ∧ (∀ s, BodyKeeps all s) ∧ (∀ ss, StmtsKeeps all ss) ∧
      (∀ d, StructKeeps all d) ∧ (∀ ms fns, MethodsKeeps all ms fns) ∧
      (∀ d fn, FunctionKeeps all d fn) :=
  checkStmt.mutual_induct (StmtKeeps all) (BodyKeeps all) (StmtsKeeps all) (StructKeeps all)
    (MethodsKeeps all) (FunctionKeeps all)
    (checkStmt_block_keeps hnd) checkStmt_var_keeps checkStmt_sizedArray_keeps
    (checkStmt_fnDecl_keeps hnd) checkStmt_structDecl_keeps checkStmt_ifElse_keeps
    checkStmt_whileLoop_keeps checkStmt_ret_keeps
    (fun e span _ => checkStmt_expr_keeps e span) (fun e span _ => checkStmt_expr_keeps e span)
    (checkBody_block_keeps hnd) (checkBody_other_keeps hnd) checkStmts_nil_keeps
    checkStmts_cons_keeps (checkStruct_keeps hnd) checkMethods_cons_keeps checkMethods_other_keeps
    (checkFunction_keeps hnd)

theorem checkStmt_none_reports {s : Stmt} {c : Checker} (hs : s.isDeclaration = false)
    (hnone : ((checkStmt s).run c).1 = none) :
    ∃ ds, ((checkStmt s).run c).2.diagnostics = c.diagnostics ++ ds ∧ ds ≠ #[] := by
  have hk := (@checks_keep [] List.nodup_nil).1 s c
  obtain ⟨ds, hds⟩ := hk.appends
  refine ⟨ds, hds, fun hnil => ?_⟩
  have hkept := hk.kept (by simp [Checker.Quiet, hds, hnil])
  rw [hnone] at hkept
  cases hkept with
  | skip hd _ => simp [hd] at hs

theorem Checker.initial_sourced (all : List Decl) : Checker.initial.Sourced all where
  functions _ _ h := by simp [Checker.initial] at h
  hoistedFunctions _ h := by simp [Checker.initial] at h
  hoistedStructs _ h := by simp [Checker.initial] at h

theorem Checker.initial_keptBodies (all : List Decl) : Checker.initial.KeptBodies all :=
  fun _ _ _ h => by simp [Checker.initial] at h

end Sigh.Typing

namespace Sigh

open Typing

theorem Program.check_keeps {p : Program} {tp : Typed.Program} (h : p.check = .ok tp)
    (hnd : (Stmt.listDeclStarts p.statements).Nodup) :
    tp.body.span = p.span ∧ Stmt.AllKeptAs p.statements tp.body.statements ∧
      ∀ f ∈ tp.functions, ∃ d : FunDecl, Decl.fn d ∈ Stmt.listDecls p.statements ∧
        f.name = d.name.name ∧ f.span = d.name.span ∧ f.body.span = d.bodySpan ∧
        Stmt.AllKeptAs d.body f.body.statements := by
  have hnd' : ((Stmt.listDecls p.statements).map Decl.start).Nodup := by
    rwa [Stmt.map_start_listDecls]
  unfold Program.check at h
  simp only [run_bind, popScope_run, run_pure] at h
  have ho := enterScope_opens .root p.statements Checker.initial
  have hk := enterScope_kinds .root p.statements Checker.initial
  have he := enterScope_keeps hnd' .root p.statements Checker.initial
  have hs := checks_specs.2.2.1 p.statements hnd _ (ho.grows.valid Checker.initial_valid)
  generalize ((enterScope .root p.statements).run Checker.initial).2 = c₁ at ho hk he hs h
  have hks := (checks_keep hnd').2.2.1 p.statements c₁
  generalize (checkStmts p.statements).run c₁ = r at hs hks h
  obtain ⟨ss, c₂⟩ := r
  have hc := Checked.close ho hk (fun _ => by simp) (Stmt.nodup_hoistStarts hnd) hs
    fun s hs i hi => List.mem_flatMap.mpr ⟨s, hs, hi⟩
  have hall := (he.trans hks fun _ h => h).trans (.scopes c₂ c₂.scopes.pop.2) fun h _ => h
  split at h
  next hempty =>
    cases h
    have hq : Checker.initial.Quiet { c₂ with scopes := c₂.scopes.pop.2 } := by
      simpa [Checker.Quiet, Checker.initial] using hempty
    have hbodies := hall.bodies (List.Subset.refl _) (Checker.initial_sourced _) hq
      (Checker.initial_keptBodies _)
    refine ⟨rfl, hall.kept hq, fun f hf => ?_⟩
    obtain ⟨⟨fi, id⟩, hmem, rfl⟩ := Array.mem_map.mp hf
    obtain ⟨i, hi⟩ := Array.mem_iff_getElem?.mp (Array.fst_mem_of_mem_zipIdx hmem)
    cases hb : fi.body with
    | none =>
      obtain ⟨_, hi₀, -⟩ := (hc.pending i ⟨fi, hi, hb⟩).1
      simp [Checker.initial] at hi₀
    | some b =>
      simp only [hb, Option.getD_some]
      exact hbodies i fi b hi hb
  next => cases h

/-- Checking drops no code. A check of an expression or of an assignment target only adds
diagnostics, and gives a result exactly when it adds none; a check of a statement that gives no
statement adds a diagnostic, unless the statement declares a function or a struct; and a program
that reads and checks keeps, in order, one statement for each statement of its body that is not
such a declaration, at every depth, and gives each function the checked body of its own
declaration. -/
theorem checking_keeps_statements :
    (∀ (e : Expr) (c : Checker), ∃ ds,
      ((checkExpr e).run c).2 = { c with diagnostics := c.diagnostics ++ ds } ∧
        (((checkExpr e).run c).1.isSome ↔ ds = #[])) ∧
    (∀ (e : Expr) (c : Checker), ∃ ds,
      ((checkPlace e).run c).2 = { c with diagnostics := c.diagnostics ++ ds } ∧
        (((checkPlace e).run c).1.isSome ↔ ds = #[])) ∧
    (∀ (s : Stmt) (c : Checker), s.isDeclaration = false → ((checkStmt s).run c).1 = none →
      ∃ ds, ((checkStmt s).run c).2.diagnostics = c.diagnostics ++ ds ∧ ds ≠ #[]) ∧
    (∀ (source : String) (tp : Typed.Program), Program.readChecked source = .ok tp →
      ∃ p : Program, Program.read source = .ok p ∧ tp.body.span = p.span ∧
        Stmt.AllKeptAs p.statements tp.body.statements ∧
        ∀ f ∈ tp.functions, ∃ d : FunDecl, Decl.fn d ∈ Stmt.listDecls p.statements ∧
          f.name = d.name.name ∧ f.span = d.name.span ∧ f.body.span = d.bodySpan ∧
          Stmt.AllKeptAs d.body f.body.statements) := by
  refine ⟨checkExpr_adds_iff, checkPlace_adds_iff,
    fun s c hs hnone => checkStmt_none_reports hs hnone, fun source tp h => ?_⟩
  unfold Program.readChecked at h
  obtain ⟨p, hp, hc⟩ := Parse.bind_eq_ok.mp h
  exact ⟨p, hp, Program.check_keeps (mapError_eq_ok.mp hc) (Program.read_declStarts_nodup hp)⟩

/-- A statement that names nothing declared is reported; a function that returns `true` checks,
and keeps its statements. -/
theorem unknown_name_reported_and_function_kept :
    (Stmt.expr (.ref "y" ⟨0, 1⟩) ⟨0, 1⟩).isDeclaration = false ∧
      ((checkStmt (.expr (.ref "y" ⟨0, 1⟩) ⟨0, 1⟩)).run Checker.initial).1 = none ∧
      (∃ ds, ((checkStmt (.expr (.ref "y" ⟨0, 1⟩) ⟨0, 1⟩)).run Checker.initial).2.diagnostics =
        Checker.initial.diagnostics ++ ds ∧ ds ≠ #[]) ∧
      ∃ tp, Program.readChecked "fun yes(): Bool \x7b return true \x7d" = .ok tp ∧
        ∃ p : Program, Program.read "fun yes(): Bool \x7b return true \x7d" = .ok p ∧
          tp.body.span = p.span ∧ Stmt.AllKeptAs p.statements tp.body.statements ∧
          ∀ f ∈ tp.functions, ∃ d : FunDecl, Decl.fn d ∈ Stmt.listDecls p.statements ∧
            f.name = d.name.name ∧ f.span = d.name.span ∧ f.body.span = d.bodySpan ∧
            Stmt.AllKeptAs d.body f.body.statements := by
  obtain ⟨-, -, hfail, hkept⟩ := checking_keeps_statements
  have hnone : ((checkStmt (.expr (.ref "y" ⟨0, 1⟩) ⟨0, 1⟩)).run Checker.initial).1 = none :=
    Option.isNone_iff_eq_none.mp (by decide +kernel)
  obtain ⟨tp, htp⟩ := Parse.exists_eq_ok_of_isSome
    (x := Program.readChecked "fun yes(): Bool \x7b return true \x7d") (by decide +kernel)
  exact ⟨rfl, hnone, hfail _ _ rfl hnone, tp, htp, hkept _ _ htp⟩

end Sigh
