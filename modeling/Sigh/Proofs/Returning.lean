import Mathlib
import Sigh.Run

namespace Sigh

namespace Typed

/-- Running the statement ends in a `return` with a value, whichever way its conditions go. -/
inductive Stmt.Returns : Stmt → Prop
  | ret {value span} : Stmt.Returns (.ret (some value) span)
  | block {b span s} : s ∈ b.statements → Stmt.Returns s → Stmt.Returns (.block b span)
  | ifElse {cond thenBranch elseBranch span} : Stmt.Returns thenBranch →
      Stmt.Returns elseBranch → Stmt.Returns (.ifElse cond thenBranch (some elseBranch) span)

/-- Every `return` in the statement carries a value. -/
inductive Stmt.NoBareReturn : Stmt → Prop
  | block {b span} : (∀ s ∈ b.statements, Stmt.NoBareReturn s) →
      Stmt.NoBareReturn (.block b span)
  | declare {slot value span} : Stmt.NoBareReturn (.declare slot value span)
  | sizedArray {slot element dims span} : Stmt.NoBareReturn (.sizedArray slot element dims span)
  | ifElse {cond thenBranch elseBranch span} : Stmt.NoBareReturn thenBranch →
      (∀ e ∈ elseBranch, Stmt.NoBareReturn e) →
      Stmt.NoBareReturn (.ifElse cond thenBranch elseBranch span)
  | whileLoop {cond body span} : Stmt.NoBareReturn body →
      Stmt.NoBareReturn (.whileLoop cond body span)
  | ret {value span} : Stmt.NoBareReturn (.ret (some value) span)
  | expr {e span} : Stmt.NoBareReturn (.expr e span)

/-- A block whose run always gives a value: a statement of it returns one, and no `return` in it
is bare. -/
structure Block.ReturnsValue (b : Block) : Prop where
  returns : ∃ s ∈ b.statements, s.Returns
  noBare : ∀ s ∈ b.statements, s.NoBareReturn

end Typed

/-- A flow with no bare `return` that returns a value whenever `mustReturn` holds. -/
def Flow.Valued (mustReturn : Prop) : Flow → Prop
  | .normal => ¬ mustReturn
  | .ret none => False
  | .ret (some _) => True

theorem Flow.Valued.eq_ret {mustReturn : Prop} {flow : Flow} (h : flow.Valued mustReturn)
    (hm : mustReturn) : ∃ v, flow = .ret (some v) := by
  match flow, h with
  | .normal, h => exact absurd hm h
  | .ret (some v), _ => exact ⟨v, rfl⟩

theorem Flow.Valued.ret {p q : Prop} {v : Option Value} (h : (Flow.ret v).Valued p) :
    (Flow.ret v).Valued q := by
  cases v with
  | none => exact h.elim
  | some _ => trivial

theorem Flow.Valued.mono {p q : Prop} {flow : Flow} (h : flow.Valued p) (hqp : q → p) :
    flow.Valued q := by
  match flow, h with
  | .normal, h => exact fun hq => h (hqp hq)
  | .ret (some _), _ => trivial

theorem Exec.bind_ok {α β : Type} {x : Exec α} {f : α → Exec β} {m m' : Machine} {b : β}
    (h : (x >>= f).run.run m = (.ok b, m')) :
    ∃ a m₁, x.run.run m = (.ok a, m₁) ∧ (f a).run.run m₁ = (.ok b, m') := by
  simp only [ExceptT.run_bind, StateT.run_bind] at h
  rcases hx : x.run.run m with ⟨r, m₁⟩
  rw [hx] at h
  cases r with
  | ok a => exact ⟨a, m₁, rfl, h⟩
  | error e => cases h

theorem Exec.pure_ok {α : Type} {a b : α} {m m' : Machine}
    (h : (pure a : Exec α).run.run m = (.ok b, m')) : a = b := by
  cases h
  rfl

namespace Run

variable (p : Typed.Program)

/-- What runs with `fuel` units end with, for each way of running statements. -/
structure FlowsValued (fuel : Nat) : Prop where
  exec : ∀ {s env m flow m'}, s.NoBareReturn → (exec p fuel s env).run.run m = (.ok flow, m') →
    flow.Valued s.Returns
  execBlock : ∀ {b env m flow m'}, (∀ s ∈ b.statements, s.NoBareReturn) →
    (execBlock p fuel b env).run.run m = (.ok flow, m') →
    flow.Valued (∃ s ∈ b.statements, s.Returns)
  execStmts : ∀ {ss env m flow m'}, (∀ s ∈ ss, s.NoBareReturn) →
    (execStmts p fuel ss env).run.run m = (.ok flow, m') → flow.Valued (∃ s ∈ ss, s.Returns)
  loop : ∀ {cond body env m flow m'}, body.NoBareReturn →
    (loop p fuel cond body env).run.run m = (.ok flow, m') → flow.Valued False

theorem flowsValued_zero : FlowsValued p 0 where
  exec _ h := by rw [exec] at h; cases h
  execBlock _ h := by rw [execBlock] at h; cases h
  execStmts _ h := by rw [execStmts] at h; cases h
  loop _ h := by rw [loop] at h; cases h

section
variable {p} {fuel : Nat} (ih : FlowsValued p fuel)
include ih

theorem exec_valued_succ {s : Typed.Stmt} {env : Nat} {m m' : Machine} {flow : Flow}
    (hs : s.NoBareReturn) (h : (exec p (fuel + 1) s env).run.run m = (.ok flow, m')) :
    flow.Valued s.Returns := by
  cases hs with
  | block hb =>
    rw [exec] at h
    exact (ih.execBlock hb h).mono fun hr => by
      cases hr with
      | block hmem hr => exact ⟨_, hmem, hr⟩
  | declare =>
    rw [exec] at h
    obtain ⟨_, _, -, h⟩ := Exec.bind_ok h
    obtain ⟨_, _, -, h⟩ := Exec.bind_ok h
    obtain ⟨_, _, -, h⟩ := Exec.bind_ok h
    cases Exec.pure_ok h
    rintro ⟨⟩
  | sizedArray =>
    rw [exec] at h
    obtain ⟨_, _, -, h⟩ := Exec.bind_ok h
    obtain ⟨_, _, -, h⟩ := Exec.bind_ok h
    obtain ⟨_, _, -, h⟩ := Exec.bind_ok h
    cases Exec.pure_ok h
    rintro ⟨⟩
  | @ifElse _ _ elseBranch _ ht he =>
    cases elseBranch with
    | none =>
      rw [exec] at h
      obtain ⟨_, _, -, h⟩ := Exec.bind_ok h
      split at h
      · exact (ih.exec ht h).mono (by rintro ⟨⟩)
      · cases Exec.pure_ok h
        rintro ⟨⟩
    | some e =>
      rw [exec] at h
      obtain ⟨_, _, -, h⟩ := Exec.bind_ok h
      split at h
      · exact (ih.exec ht h).mono fun hr => by cases hr with | ifElse hr _ => exact hr
      · exact (ih.exec (he e rfl) h).mono fun hr => by cases hr with | ifElse _ hr => exact hr
  | whileLoop hb =>
    rw [exec] at h
    exact (ih.loop hb h).mono (by rintro ⟨⟩)
  | ret =>
    rw [exec] at h
    obtain ⟨v, m₁, -, h⟩ := Exec.bind_ok h
    cases Exec.pure_ok h
    trivial
  | expr =>
    rw [exec] at h
    obtain ⟨_, _, -, h⟩ := Exec.bind_ok h
    cases Exec.pure_ok h
    rintro ⟨⟩

theorem execBlock_valued_succ {b : Typed.Block} {env : Nat} {m m' : Machine} {flow : Flow}
    (hb : ∀ s ∈ b.statements, s.NoBareReturn)
    (h : (execBlock p (fuel + 1) b env).run.run m = (.ok flow, m')) :
    flow.Valued (∃ s ∈ b.statements, s.Returns) := by
  rw [execBlock] at h
  obtain ⟨_, _, -, h⟩ := Exec.bind_ok h
  exact ih.execStmts hb h

theorem execStmts_valued_succ {ss : List Typed.Stmt} {env : Nat} {m m' : Machine} {flow : Flow}
    (hss : ∀ s ∈ ss, s.NoBareReturn)
    (h : (execStmts p (fuel + 1) ss env).run.run m = (.ok flow, m')) :
    flow.Valued (∃ s ∈ ss, s.Returns) := by
  cases ss with
  | nil =>
    rw [execStmts] at h
    cases Exec.pure_ok h
    simp [Flow.Valued]
  | cons s rest =>
    rw [execStmts] at h
    obtain ⟨first, _, hfirst, h⟩ := Exec.bind_ok h
    have hs := ih.exec (hss s List.mem_cons_self) hfirst
    split at h
    · cases Exec.pure_ok h
      exact hs.ret
    · have hrest := ih.execStmts (fun s' hs' => hss s' (List.mem_cons_of_mem s hs')) h
      refine hrest.mono ?_
      rintro ⟨s', hmem, hr⟩
      rcases List.mem_cons.mp hmem with rfl | hmem
      · exact absurd hr hs
      · exact ⟨s', hmem, hr⟩

theorem loop_valued_succ {cond : Typed.Expr} {body : Typed.Stmt} {env : Nat} {m m' : Machine}
    {flow : Flow} (hbody : body.NoBareReturn)
    (h : (loop p (fuel + 1) cond body env).run.run m = (.ok flow, m')) : flow.Valued False := by
  rw [loop] at h
  obtain ⟨_, _, -, h⟩ := Exec.bind_ok h
  split at h
  · obtain ⟨turn, _, hturn, h⟩ := Exec.bind_ok h
    have hs := ih.exec hbody hturn
    split at h
    · cases Exec.pure_ok h
      exact hs.ret
    · exact ih.loop hbody h
  · cases Exec.pure_ok h
    exact id

end

theorem flowsValued (fuel : Nat) : FlowsValued p fuel := by
  induction fuel with
  | zero => exact flowsValued_zero p
  | succ fuel ih =>
    exact ⟨exec_valued_succ ih, execBlock_valued_succ ih, execStmts_valued_succ ih,
      loop_valued_succ ih⟩

theorem execBlock_returnsValue {b : Typed.Block} (hb : b.ReturnsValue) {fuel env : Nat}
    {m m' : Machine} {flow : Flow} (h : (execBlock p fuel b env).run.run m = (.ok flow, m')) :
    ∃ v, flow = .ret (some v) :=
  ((flowsValued p fuel).execBlock hb.noBare h).eq_ret hb.returns

end Run

end Sigh
