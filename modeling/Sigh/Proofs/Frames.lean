import Sigh.Proofs.Indexing

namespace Sigh

/-- `m'` has every frame of `m`, under the same parent. -/
def Machine.KeepsParents (m m' : Machine) : Prop :=
  ∀ (i : Nat) (fr : Frame), m.frames[i]? = some fr →
    ∃ fr' : Frame, m'.frames[i]? = some fr' ∧ fr'.parent = fr.parent

namespace Machine.KeepsParents

variable {m m₁ m₂ : Machine}

theorem refl (m : Machine) : m.KeepsParents m := fun _ fr h => ⟨fr, h, rfl⟩

theorem trans (h₁ : m.KeepsParents m₁) (h₂ : m₁.KeepsParents m₂) : m.KeepsParents m₂ := by
  intro i fr h
  obtain ⟨fr₁, h₁', hp₁⟩ := h₁ i fr h
  obtain ⟨fr₂, h₂', hp₂⟩ := h₂ i fr₁ h₁'
  exact ⟨fr₂, h₂', hp₂.trans hp₁⟩

theorem of_frames_eq (h : m₁.frames = m.frames) : m.KeepsParents m₁ := by
  intro i fr hfr
  exact ⟨fr, by rw [h]; exact hfr, rfl⟩

theorem ancestor (h : m.KeepsParents m₁) :
    ∀ (hops frame a : Nat), m.ancestor frame hops = .ok a → m₁.ancestor frame hops = .ok a
  | 0, _, _, ha => ha
  | hops + 1, frame, a, ha => by
    unfold Machine.ancestor at ha ⊢
    cases hfr : m.frames[frame]? with
    | none => simp [hfr] at ha
    | some fr =>
      obtain ⟨fr₁, hfr₁, hp⟩ := h frame fr hfr
      rw [hfr, Option.bind_some] at ha
      rw [hfr₁, Option.bind_some, hp]
      split at ha
      · exact ancestor h hops _ a ha
      · cases ha

end Machine.KeepsParents

theorem Machine.keepsParents_pushFrame (m : Machine) (fr : Frame) :
    m.KeepsParents (m.pushFrame fr).2 := by
  intro i f hf
  have hi : i < m.frames.size := (Array.getElem?_eq_some_iff.mp hf).1
  refine ⟨f, ?_, rfl⟩
  simp only [pushFrame, Array.getElem?_push, Nat.ne_of_lt hi, if_false]
  exact hf

theorem Machine.keepsParents_writeSlot (m : Machine) (frame slot : Nat) (v : Value) :
    m.KeepsParents (m.writeSlot frame slot v) := by
  intro i f hf
  simp only [writeSlot, Array.getElem?_modify]
  split
  · exact ⟨{ f with slots := f.slots.setIfInBounds slot v }, by rw [hf]; rfl, rfl⟩
  · exact ⟨f, hf, rfl⟩

theorem Machine.keepsParents_writeField (m : Machine) (addr field : Nat) (v : Value) :
    m.KeepsParents (m.writeField addr field v) :=
  .of_frames_eq (m.writeField_frames addr field v)

theorem Machine.keepsParents_writeItem (m : Machine) (addr index : Nat) (v : Value) :
    m.KeepsParents (m.writeItem addr index v) :=
  .of_frames_eq (m.writeItem_frames addr index v)

namespace Op.KeepsFrames

variable {α β : Type}

theorem throw (f : Fault) : (MonadExcept.throw f : Op α).KeepsFrames := fun _ => rfl

theorem get_bind {f : Machine → Op α} (hf : ∀ m, (f m).KeepsFrames) : (get >>= f).KeepsFrames :=
  fun m => hf m m

theorem liftFault (r : Except Fault α) : (Sigh.liftFault r).KeepsFrames := by
  cases r <;> exact fun _ => rfl

theorem newArray (items : Array Value) : (Sigh.newArray items).KeepsFrames := fun _ => rfl

theorem arrayItems (v : Value) (context : String) : (Sigh.arrayItems v context).KeepsFrames := by
  unfold Sigh.arrayItems
  split
  · exact get_bind fun m => by
      split
      · exact pure _
      · exact throw _
  · exact throw _
  · exact throw _

theorem arithmeticOn (p : Typed.Program) (op : BinOp) (l r : Value) (strict : Bool) :
    (Sigh.arithmeticOn p op l r strict).KeepsFrames :=
  get_bind fun _ => liftFault _

theorem list_foldlM {γ : Type} {f : γ → α → Op γ} (hf : ∀ acc a, (f acc a).KeepsFrames) :
    ∀ (xs : List α) (init : γ), (xs.foldlM f init).KeepsFrames
  | [], _ => pure _
  | a :: xs, init => by
    rw [List.foldlM_cons]
    exact (hf init a).bind fun acc => list_foldlM hf xs acc

theorem array_foldlM {γ : Type} {f : γ → α → Op γ} (hf : ∀ acc a, (f acc a).KeepsFrames)
    (xs : Array α) (init : γ) : (xs.foldlM f init).KeepsFrames := by
  rw [← Array.foldlM_toList]
  exact list_foldlM hf xs.toList init

theorem array_mapM {f : α → Op β} (hf : ∀ a, (f a).KeepsFrames) (xs : Array α) :
    (xs.mapM f).KeepsFrames := by
  rw [Array.mapM_eq_mapM_toList]
  exact (mapM hf xs.toList).bind fun _ => pure _

theorem elementWiseWith (p : Typed.Program) (op : BinOp) :
    ∀ (fuel : Nat) (l r : Value), (Sigh.elementWiseWith p op fuel l r).KeepsFrames
  | 0, _, _ => throw _
  | fuel + 1, l, r => by
    unfold Sigh.elementWiseWith
    split
    · refine (arrayItems _ _).bind fun ls => (arrayItems _ _).bind fun rs => ?_
      have hrest : ∀ f : Value × Value → Op Value, (∀ x, (f x).KeepsFrames) →
          ((ls.zip rs).mapM f >>= Sigh.newArray).KeepsFrames :=
        fun f hf => (array_mapM hf _).bind fun _ => newArray _
      dsimp only
      split
      · exact (throw _).bind fun _ => hrest _ fun _ => elementWiseWith p op fuel _ _
      · exact hrest _ fun _ => elementWiseWith p op fuel _ _
    all_goals first | exact throw _ | exact arithmeticOn p op l r true

theorem elementWise (p : Typed.Program) (op : BinOp) (l r : Value) :
    (Sigh.elementWise p op l r).KeepsFrames :=
  get_bind fun _ => elementWiseWith p op _ l r

theorem sumOfProducts (p : Typed.Program) (float : Bool) (pairs : List (Value × Value)) :
    (Sigh.sumOfProducts p float pairs).KeepsFrames :=
  (list_foldlM (fun _ _ => (arithmeticOn _ _ _ _ _).bind fun _ => arithmeticOn _ _ _ _ _) _ _).bind
    fun _ => pure _

theorem matrixRows (v : Value) : (Sigh.matrixRows v).KeepsFrames := by
  unfold Sigh.matrixRows
  refine (arrayItems _ _).bind fun rows => (array_mapM (fun _ => arrayItems _ _) _).bind
    fun rows => ?_
  split
  · split
    · exact throw _
    · exact pure _
  · exact pure _

theorem dotProduct (p : Typed.Program) (l r : Value) (shape : Typed.DotShape) (float : Bool) :
    (Sigh.dotProduct p l r shape float).KeepsFrames := by
  unfold Sigh.dotProduct
  cases shape with
  | vectors =>
    refine (arrayItems _ _).bind fun ls => (arrayItems _ _).bind fun rs => ?_
    dsimp only
    split
    · exact (throw _).bind fun _ => sumOfProducts _ _ _
    · exact sumOfProducts _ _ _
  | vectorByColumn =>
    refine (arrayItems _ _).bind fun ls => (matrixRows _).bind fun rows => ?_
    dsimp only
    split
    · exact (throw _).bind fun _ => sumOfProducts _ _ _
    · exact sumOfProducts _ _ _
  | matrices =>
    refine (matrixRows _).bind fun ls => (matrixRows _).bind fun rs => ?_
    have hrows : ∀ columns : Nat, ((ls.mapM fun row => do
        let out ← (List.range columns).mapM fun column =>
          Sigh.sumOfProducts p float
            (row.toList.zip (rs.toList.map fun rrow => rrow.getD column .null))
        Sigh.newArray out.toArray) >>= Sigh.newArray).KeepsFrames := fun _ =>
      (array_mapM (fun _ => (mapM (fun _ => sumOfProducts _ _ _) _).bind fun _ => newArray _)
        _).bind fun _ => newArray _
    dsimp only
    split
    · exact (throw _).bind fun _ => hrows _
    · exact hrows _

theorem countLeaves : ∀ (fuel depth : Nat) (items : Array Value),
    (Sigh.countLeaves fuel depth items).KeepsFrames
  | 0, _, _ => throw _
  | fuel + 1, depth, items => by
    unfold Sigh.countLeaves
    refine array_foldlM (fun total item => ?_) items 0
    split
    · exact (arrayItems _ _).bind fun inner => (countLeaves fuel _ inner).bind fun _ => pure _
    · split
      · exact throw _
      · exact pure _
    · exact pure _

theorem sumLeaves (p : Typed.Program) (float : Bool) : ∀ (fuel : Nat) (items : Array Value),
    (Sigh.sumLeaves p float fuel items).KeepsFrames
  | 0, _ => throw _
  | fuel + 1, items => by
    unfold Sigh.sumLeaves
    refine array_foldlM (fun acc item => ?_) items _
    dsimp only
    split
    · exact (arrayItems _ _).bind fun inner => (sumLeaves p float fuel inner).bind fun _ =>
        arithmeticOn _ _ _ _ _
    · exact (throw _).bind fun _ => arithmeticOn _ _ _ _ _
    · exact (pure _).bind fun _ => arithmeticOn _ _ _ _ _

theorem nestingDepth : ∀ (fuel : Nat) (items : Array Value),
    (Sigh.nestingDepth fuel items).KeepsFrames
  | 0, _ => throw _
  | fuel + 1, items => by
    unfold Sigh.nestingDepth
    split
    · exact get_bind fun _ => (nestingDepth fuel _).bind fun _ => pure _
    · exact pure _

theorem property (p : Typed.Program) (array : Value) (prop : Typed.Property) (ty : Ty) :
    (Sigh.property p array prop ty).KeepsFrames := by
  unfold Sigh.property
  refine (arrayItems _ _).bind fun items => get_bind fun m => ?_
  cases prop with
  | length => exact pure _
  | count => exact (countLeaves _ _ _).bind fun _ => pure _
  | nDim => exact (nestingDepth _ _).bind fun _ => pure _
  | sum => exact sumLeaves _ _ _ _
  | avg =>
    refine (sumLeaves _ _ _ _).bind fun total => (countLeaves _ _ _).bind fun count => ?_
    dsimp only
    split
    · exact pure _
    · exact arithmeticOn _ _ _ _ _

end Op.KeepsFrames

/-- Running `x` from any machine keeps every frame under its parent. -/
def Exec.KeepsParents {α : Type} (x : Exec α) : Prop :=
  ∀ m : Machine, m.KeepsParents (x.run.run m).2

namespace Exec.KeepsParents

variable {α β : Type}

theorem pure (a : α) : (Pure.pure a : Exec α).KeepsParents := fun m => .refl m

theorem throw (h : Halt) : (MonadExcept.throw h : Exec α).KeepsParents := fun m => .refl m

theorem bind {x : Exec α} {f : α → Exec β} (hx : x.KeepsParents) (hf : ∀ a, (f a).KeepsParents) :
    (x >>= f).KeepsParents := by
  intro m
  rcases h : x.run.run m with ⟨err | a, m₁⟩
  · have hm := hx m
    rw [h] at hm
    have he : (x >>= f).run.run m = (.error err, m₁) := by
      simp only [ExceptT.run_bind, StateT.run_bind, h]
      rfl
    rw [he]
    exact hm
  · have hm := hx m
    rw [h] at hm
    rw [Exec.run_bind_ok h]
    exact hm.trans (hf a m₁)

theorem get_bind {f : Machine → Exec α} (hf : ∀ m, (f m).KeepsParents) :
    (get >>= f).KeepsParents := fun m => hf m m

theorem of_run {x : Exec α} (hx : x.KeepsParents) {m m₁ : Machine} {r : Except Halt α}
    (h : x.run.run m = (r, m₁)) : m.KeepsParents m₁ := by
  have hm := hx m
  rwa [h] at hm

theorem modify_of_frames {g : Machine → Machine} (hg : ∀ m : Machine, m.KeepsParents (g m)) :
    (modify g : Exec PUnit).KeepsParents := fun m => hg m

theorem charge (r : Except Fault α) (span : Span) : (Sigh.charge r span).KeepsParents := by
  cases r <;> exact fun m => .refl m

theorem inspect (f : Machine → Except Fault α) (span : Span) :
    (Sigh.inspect f span).KeepsParents :=
  get_bind fun _ => Exec.KeepsParents.charge _ _

theorem chargeOp {x : Op α} (hx : x.KeepsFrames) (span : Span) :
    (Sigh.chargeOp x span).KeepsParents := by
  intro m
  have hm := hx m
  simp only [Sigh.chargeOp, ExceptT.run_mk, StateT.run_bind]
  rcases h : x.run.run m with ⟨_ | a, m₁⟩
  · rw [h] at hm
    exact .of_frames_eq hm
  · rw [h] at hm
    exact .of_frames_eq hm

theorem newFrame (parent receiver : Option Nat) (slots : Array Value) :
    (Sigh.newFrame parent receiver slots).KeepsParents :=
  fun m => m.keepsParents_pushFrame _

end Exec.KeepsParents

open Exec.KeepsParents

namespace Run

variable (p : Typed.Program)

theorem function_keepsParents (fn : Nat) (span : Span) : (function p fn span).KeepsParents := by
  unfold function
  split
  · exact pure _
  · exact throw _

theorem receiverAt_keepsParents (env hops : Nat) (span : Span) :
    (receiverAt env hops span).KeepsParents :=
  Exec.KeepsParents.inspect _ _

theorem writeLine_keepsParents (text : String) : (writeLine text).KeepsParents :=
  modify_of_frames fun _ => .of_frames_eq rfl

/-- What every function of the interpreter keeps at a given fuel. -/
structure KeepsParentsAt (fuel : Nat) : Prop where
  eval : ∀ e env, (eval p fuel e env).KeepsParents
  evalList : ∀ es env, (evalList p fuel es env).KeepsParents
  evalBool : ∀ e env, (evalBool p fuel e env).KeepsParents
  evalIndex : ∀ e env, (evalIndex p fuel e env).KeepsParents
  evalStruct : ∀ e env, (evalStruct p fuel e env).KeepsParents
  assign : ∀ target value env span, (assign p fuel target value env span).KeepsParents
  call : ∀ callee args span, (call p fuel callee args span).KeepsParents
  elementWiseMethod : ∀ f l r span, (elementWiseMethod p fuel f l r span).KeepsParents
  elementWiseMethodList : ∀ f pairs span, (elementWiseMethodList p fuel f pairs span).KeepsParents
  invoke : ∀ f parent args, (invoke p fuel f parent args).KeepsParents
  execBlock : ∀ b env, (execBlock p fuel b env).KeepsParents
  execStmts : ∀ ss env, (execStmts p fuel ss env).KeepsParents
  exec : ∀ s env, (exec p fuel s env).KeepsParents
  loop : ∀ cond body env, (loop p fuel cond body env).KeepsParents

section Succ

variable {p} {fuel : Nat} (ih : KeepsParentsAt p fuel)
include ih

theorem eval_keepsParents_succ (e : Typed.Expr) (env : Nat) :
    (eval p (fuel + 1) e env).KeepsParents := by
  rw [Run.eval]
  dsimp only
  split
  · exact pure _
  · exact pure _
  · exact pure _
  · exact pure _
  · exact pure _
  · exact Exec.KeepsParents.inspect _ _
  · refine (receiverAt_keepsParents _ _ _).bind fun r => get_bind fun m => ?_
    split
    · exact pure _
    · exact throw _
  · exact (receiverAt_keepsParents _ _ _).bind fun _ =>
      (function_keepsParents _ _ _).bind fun _ => pure _
  · exact (function_keepsParents _ _ _).bind fun _ => (Exec.KeepsParents.inspect _ _).bind
      fun _ => pure _
  · have hrest : ∀ hops decl span, (do
        let frame ← Sigh.inspect (·.ancestor env hops) span
        Pure.pure (Value.ctor decl frame) : Exec Value).KeepsParents := fun _ _ _ =>
      (Exec.KeepsParents.inspect _ _).bind fun _ => pure _
    split
    · exact (throw _).bind fun _ => hrest _ _ _
    · exact hrest _ _ _
  · exact pure _
  · exact pure _
  · exact (ih.evalList _ _).bind fun _ => Exec.KeepsParents.chargeOp (Op.KeepsFrames.newArray _) _
  · refine (ih.evalStruct _ _).bind fun inst => get_bind fun m => ?_
    split
    · exact pure _
    · exact throw _
  · exact (ih.evalStruct _ _).bind fun _ => (function_keepsParents _ _ _).bind fun _ => pure _
  · exact (ih.eval _ _).bind fun _ => Exec.KeepsParents.chargeOp (Op.KeepsFrames.property _ _ _ _) _
  · refine (ih.eval _ _).bind fun a => (ih.evalIndex _ _).bind fun i => ?_
    split
    · exact get_bind fun _ => (Exec.KeepsParents.charge _ _).bind fun _ => pure _
    · exact throw _
  · exact (ih.eval _ _).bind fun _ => (ih.evalList _ _).bind fun _ => ih.call _ _ _
  · exact (ih.evalBool _ _).bind fun _ => pure _
  · exact (ih.eval _ _).bind fun _ => (ih.eval _ _).bind fun _ =>
      get_bind fun _ => Exec.KeepsParents.charge _ _
  · refine (ih.evalBool _ _).bind fun lb => ?_
    split
    · split
      · exact (ih.evalBool _ _).bind fun _ => pure _
      · exact pure _
    · split
      · exact pure _
      · exact (ih.evalBool _ _).bind fun _ => pure _
  · exact (ih.eval _ _).bind fun _ => (ih.eval _ _).bind fun _ => get_bind fun _ => pure _
  · exact (ih.eval _ _).bind fun _ => (ih.eval _ _).bind fun _ =>
      Exec.KeepsParents.chargeOp (Op.KeepsFrames.elementWise _ _ _ _) _
  · exact (function_keepsParents _ _ _).bind fun _ => (ih.eval _ _).bind fun _ =>
      (ih.eval _ _).bind fun _ => ih.elementWiseMethod _ _ _ _
  · split
    · exact (ih.eval _ _).bind fun _ => (ih.eval _ _).bind fun _ =>
        Exec.KeepsParents.chargeOp (Op.KeepsFrames.dotProduct _ _ _ _ _) _
    · exact throw _
  · exact ih.assign _ _ _ _
  · refine (ih.eval _ _).bind fun v => ?_
    split
    · exact pure _
    · exact pure _

theorem assign_keepsParents_succ (target : Typed.Place) (value : Typed.Expr) (env : Nat)
    (span : Span) : (assign p (fuel + 1) target value env span).KeepsParents := by
  cases target with
  | «local» hops slot =>
    rw [Run.assign]
    exact (ih.eval _ _).bind fun _ => (Exec.KeepsParents.inspect _ _).bind fun _ =>
      (Exec.KeepsParents.inspect _ _).bind fun _ =>
        (modify_of_frames fun m => m.keepsParents_writeSlot _ _ _).bind fun _ => pure _
  | receiverField hops field =>
    rw [Run.assign]
    exact (receiverAt_keepsParents _ _ _).bind fun _ => (ih.eval _ _).bind fun _ =>
      (Exec.KeepsParents.inspect _ _).bind fun _ =>
        (modify_of_frames fun m => m.keepsParents_writeField _ _ _).bind fun _ => pure _
  | field stem field =>
    rw [Run.assign]
    exact (ih.evalStruct _ _).bind fun _ => (ih.eval _ _).bind fun _ =>
      (Exec.KeepsParents.inspect _ _).bind fun _ =>
        (modify_of_frames fun m => m.keepsParents_writeField _ _ _).bind fun _ => pure _
  | index array index =>
    rw [Run.assign]
    refine (ih.eval _ _).bind fun a => (ih.evalIndex _ _).bind fun _ => (ih.eval _ _).bind
      fun _ => ?_
    split
    · exact (Exec.KeepsParents.inspect _ _).bind fun _ =>
        (modify_of_frames fun m => m.keepsParents_writeItem _ _ _).bind fun _ => pure _
    · exact throw _

theorem call_keepsParents_succ (callee : Value) (args : List Value) (span : Span) :
    (call p (fuel + 1) callee args span).KeepsParents := by
  cases callee with
  | closure fn frame =>
    rw [Run.call]
    exact (function_keepsParents _ _ _).bind fun _ => ih.invoke _ _ _
  | method receiver fn =>
    rw [Run.call]
    exact (function_keepsParents _ _ _).bind fun _ => get_bind fun _ =>
      (Exec.KeepsParents.newFrame _ _ _).bind fun _ => ih.invoke _ _ _
  | ctor decl frame =>
    rw [Run.call]
    exact fun m => .of_frames_eq rfl
  | print =>
    rw [Run.call]
    exact get_bind fun _ => (writeLine_keepsParents _).bind fun _ => pure _
  | null =>
    rw [Run.call]
    exact throw _
  | _ =>
    simp only [Run.call]
    exact throw _

theorem elementWiseMethod_keepsParents_succ (f : Typed.Function) (l r : Value) (span : Span) :
    (elementWiseMethod p (fuel + 1) f l r span).KeepsParents := by
  rw [Run.elementWiseMethod.eq_def]
  dsimp only
  split
  · refine get_bind fun m => ?_
    have hrest : ∀ ls rs : Array Value, (do
        let items ← elementWiseMethodList p fuel f (ls.toList.zip rs.toList) span
        Sigh.chargeOp (Sigh.newArray items.toArray) span : Exec Value).KeepsParents :=
      fun _ _ => (ih.elementWiseMethodList _ _ _).bind fun _ =>
        Exec.KeepsParents.chargeOp (Op.KeepsFrames.newArray _) _
    split
    · exact (throw _).bind fun _ => hrest _ _
    · exact hrest _ _
  · exact ih.call _ _ _
  · exact throw _
  · exact throw _
  · exact throw _

theorem exec_keepsParents_succ (s : Typed.Stmt) (env : Nat) :
    (exec p (fuel + 1) s env).KeepsParents := by
  cases s with
  | block b _ =>
    rw [Run.exec]
    exact ih.execBlock _ _
  | declare slot value span =>
    rw [Run.exec]
    exact (ih.eval _ _).bind fun _ => (Exec.KeepsParents.inspect _ _).bind fun _ =>
      (modify_of_frames fun m => m.keepsParents_writeSlot _ _ _).bind fun _ => pure _
  | sizedArray slot element dims span =>
    rw [Run.exec]
    exact (Exec.KeepsParents.chargeOp (allocate_keepsFrames _ _) _).bind fun _ =>
      (Exec.KeepsParents.inspect _ _).bind fun _ =>
        (modify_of_frames fun m => m.keepsParents_writeSlot _ _ _).bind fun _ => pure _
  | ifElse cond thenBranch elseBranch _ =>
    cases elseBranch with
    | some e =>
      rw [Run.exec]
      refine (ih.evalBool _ _).bind fun b => ?_
      split
      · exact ih.exec _ _
      · exact ih.exec _ _
    | none =>
      rw [Run.exec]
      refine (ih.evalBool _ _).bind fun b => ?_
      split
      · exact ih.exec _ _
      · exact pure _
  | whileLoop cond body _ =>
    rw [Run.exec]
    exact ih.loop _ _ _
  | ret value _ =>
    cases value with
    | some e =>
      rw [Run.exec]
      exact (ih.eval _ _).bind fun _ => pure _
    | none =>
      rw [Run.exec]
      exact pure _
  | expr e _ =>
    rw [Run.exec]
    exact (ih.eval _ _).bind fun _ => pure _

end Succ

theorem keepsParentsAt : ∀ fuel, KeepsParentsAt p fuel
  | 0 =>
    { eval := fun _ _ => by rw [Run.eval]; exact throw _
      evalList := fun _ _ => by rw [Run.evalList]; exact throw _
      evalBool := fun _ _ => by rw [Run.evalBool]; exact throw _
      evalIndex := fun _ _ => by rw [Run.evalIndex]; exact throw _
      evalStruct := fun _ _ => by rw [Run.evalStruct]; exact throw _
      assign := fun _ _ _ _ => by rw [Run.assign]; exact throw _
      call := fun _ _ _ => by rw [Run.call]; exact throw _
      elementWiseMethod := fun _ _ _ _ => by rw [Run.elementWiseMethod]; exact throw _
      elementWiseMethodList := fun _ _ _ => by rw [Run.elementWiseMethodList]; exact throw _
      invoke := fun _ _ _ => by rw [Run.invoke]; exact throw _
      execBlock := fun _ _ => by rw [Run.execBlock]; exact throw _
      execStmts := fun _ _ => by rw [Run.execStmts]; exact throw _
      exec := fun _ _ => by rw [Run.exec]; exact throw _
      loop := fun _ _ _ => by rw [Run.loop]; exact throw _ }
  | fuel + 1 =>
    have ih := keepsParentsAt fuel
    { eval := eval_keepsParents_succ ih
      evalList := fun es env => by
        cases es with
        | nil =>
          rw [Run.evalList]
          exact pure _
        | cons e es =>
          rw [Run.evalList]
          exact (ih.eval _ _).bind fun _ => (ih.evalList _ _).bind fun _ => pure _
      evalBool := fun e env => by
        rw [Run.evalBool]
        refine (ih.eval _ _).bind fun v => ?_
        split
        · exact pure _
        · exact throw _
        · exact throw _
      evalIndex := fun e env => by
        rw [Run.evalIndex]
        refine (ih.eval _ _).bind fun v => ?_
        split
        · exact pure _
        · exact throw _
        · exact throw _
      evalStruct := fun e env => by
        rw [Run.evalStruct]
        refine (ih.eval _ _).bind fun v => ?_
        split
        · exact pure _
        · exact throw _
        · exact throw _
      assign := assign_keepsParents_succ ih
      call := call_keepsParents_succ ih
      elementWiseMethod := elementWiseMethod_keepsParents_succ ih
      elementWiseMethodList := fun f pairs span => by
        cases pairs with
        | nil =>
          rw [Run.elementWiseMethodList]
          exact pure _
        | cons pair rest =>
          rw [Run.elementWiseMethodList]
          exact (ih.elementWiseMethod _ _ _ _).bind fun _ =>
            (ih.elementWiseMethodList _ _ _).bind fun _ => pure _
      invoke := fun f parent args => by
        rw [Run.invoke]
        refine (Exec.KeepsParents.newFrame _ _ _).bind fun frame => (ih.execBlock _ _).bind
          fun flow => ?_
        split
        · exact pure _
        · exact pure _
      execBlock := fun b env => by
        rw [Run.execBlock]
        exact (Exec.KeepsParents.newFrame _ _ _).bind fun frame => ih.execStmts _ _
      execStmts := fun ss env => by
        cases ss with
        | nil =>
          rw [Run.execStmts]
          exact pure _
        | cons s rest =>
          rw [Run.execStmts]
          refine (ih.exec _ _).bind fun flow => ?_
          split
          · exact pure _
          · exact ih.execStmts _ _
      exec := exec_keepsParents_succ ih
      loop := fun cond body env => by
        rw [Run.loop]
        refine (ih.evalBool _ _).bind fun b => ?_
        split
        · refine (ih.exec _ _).bind fun flow => ?_
          split
          · exact pure _
          · exact ih.loop _ _ _
        · exact pure _ }

end Run

end Sigh
