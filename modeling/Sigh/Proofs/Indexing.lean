import Sigh.Proofs.SizedArrays

namespace Sigh

theorem Exec.run_bind_ok {α β : Type} {x : Exec α} {f : α → Exec β} {m m₁ : Machine} {a : α}
    (h : x.run.run m = (.ok a, m₁)) : (x >>= f).run.run m = (f a).run.run m₁ := by
  simp only [ExceptT.run_bind, StateT.run_bind, h]
  rfl

theorem Exec.run_get_bind {α : Type} {f : Machine → Exec α} {m : Machine} :
    (get >>= f).run.run m = (f m).run.run m := rfl

theorem chargeOp_run_ok {α : Type} {x : Op α} {span : Span} {m m₁ : Machine} {a : α}
    (h : x.run.run m = (.ok a, m₁)) : (chargeOp x span).run.run m = (.ok a, m₁) := by
  simp only [chargeOp, ExceptT.run_mk, StateT.run_bind, h]
  rfl

/-- Running `x` leaves the frames as they were, whatever it gives. -/
def Op.KeepsFrames {α : Type} (x : Op α) : Prop := ∀ m, (x.run.run m).2.frames = m.frames

namespace Op.KeepsFrames

variable {α β : Type}

theorem pure (a : α) : (Pure.pure a : Op α).KeepsFrames := fun _ => rfl

theorem bind {x : Op α} {f : α → Op β} (hx : x.KeepsFrames) (hf : ∀ a, (f a).KeepsFrames) :
    (x >>= f).KeepsFrames := by
  intro m
  have hm := hx m
  rcases h : x.run.run m with ⟨_ | a, m₁⟩
  · rw [Op.run_bind_error h]
    rwa [h] at hm
  · rw [Op.run_bind_ok h, hf a m₁]
    rwa [h] at hm

theorem mapM {f : α → Op β} (hf : ∀ a, (f a).KeepsFrames) :
    ∀ xs : List α, (xs.mapM f).KeepsFrames
  | [] => pure _
  | a :: xs => by
    rw [List.mapM_cons]
    exact (hf a).bind fun _ => (mapM hf xs).bind fun _ => pure _

end Op.KeepsFrames

theorem allocate_keepsFrames (T : Ty) : ∀ ds : List Nat, (allocate T ds).KeepsFrames
  | [] => .pure _
  | _ :: ds => (Op.KeepsFrames.mapM (fun _ => allocate_keepsFrames T ds) _).bind fun _ _ => rfl

namespace Typed

/-- The value of a literal: a number, a string, a boolean or `null`, or an integer literal
widened to a float. -/
def ExprKind.constant? : ExprKind → Option Value
  | .int v => some (.int v)
  | .float v => some (.float v)
  | .str v => some (.str v)
  | .bool v => some (.bool v)
  | .null => some .null
  | .intToFloat ⟨.int v, _, _⟩ => some (.float v.toFloat)
  | _ => none

/-- `e` is `b[i₁]...[iₖ]`, indexed by the integer literals `i₁ ... iₖ`. -/
inductive Expr.Indexes (b : Expr) : List Int64 → Expr → Prop
  | here : Expr.Indexes b [] b
  | index {path : List Int64} {arr idx : Expr} {i : Int64} {ty : Ty} {span : Span} :
      Expr.Indexes b path arr → idx.kind = .int i →
      Expr.Indexes b (path ++ [i]) ⟨.index arr idx, ty, span⟩

/-- `s` is the statement `b[i₁]...[iₖ] = x;`, indexed by integer literals and assigning a
literal of value `x`. -/
inductive Stmt.Assigns (b : Expr) : List Int64 → Value → Stmt → Prop
  | intro {path : List Int64} {arr idx value : Expr} {i : Int64} {x : Value} {ty : Ty}
      {span span' : Span} :
      Expr.Indexes b path arr → idx.kind = .int i → value.kind.constant? = some x →
      Stmt.Assigns b (path ++ [i]) x (.expr ⟨.assign (.index arr idx) value, ty, span⟩ span')

theorem Stmt.Assigns.path_ne_nil {b : Expr} {path : List Int64} {x : Value} {s : Stmt}
    (h : s.Assigns b path x) : path ≠ [] := by
  cases h
  simp

end Typed

/-- The positions that integer indices select. -/
def positions (path : List Int64) : List Nat := path.map (·.toInt.toNat)

theorem positions_append_single (path : List Int64) (i : Int64) :
    positions (path ++ [i]) = positions path ++ [i.toInt.toNat] := by
  simp [positions]

namespace Machine

variable {m : Machine}

theorem readPath_append (m : Machine) : ∀ (v : Value) (p q : List Nat),
    m.readPath v (p ++ q) = (m.readPath v p).bind fun w => m.readPath w q
  | _, [], _ => rfl
  | v, i :: p, q => by
    rw [List.cons_append, readPath_cons, readPath_cons, Option.bind_assoc]
    congr 1
    funext w
    exact readPath_append m w p q

theorem readPath_append_single {v w : Value} {p : List Nat} {k : Nat}
    (h : m.readPath v (p ++ [k]) = some w) :
    ∃ a items, m.readPath v p = some (.array a) ∧ m.items? a = some items ∧ items[k]? = some w := by
  rw [readPath_append] at h
  obtain ⟨u, hu, hw⟩ := Option.bind_eq_some_iff.mp h
  have hw' : m.item? u k = some w := by simpa [readPath_cons] using hw
  cases u with
  | array a =>
    obtain ⟨items, ha, hk⟩ := Option.bind_eq_some_iff.mp hw'
    exact ⟨a, items, hu, ha, hk⟩
  | _ => cases hw'

theorem writePath_append_single {x : Value} {k a : Nat} : ∀ {v : Value} {p : List Nat},
    m.readPath v p = some (.array a) → m.writePath v (p ++ [k]) x = m.writeItem a k x
  | _, [], h => by
    cases h
    rfl
  | v, i :: p, h => by
    obtain ⟨u, hu, hp⟩ := Option.bind_eq_some_iff.mp h
    obtain ⟨j, rest, hjr⟩ : ∃ j rest, p ++ [k] = j :: rest :=
      List.exists_cons_of_ne_nil (by simp)
    rw [List.cons_append, hjr, writePath, hu]
    dsimp only
    rw [← hjr]
    exact writePath_append_single hp

theorem writePath_frames : ∀ (v : Value) (p : List Nat) (x : Value),
    (m.writePath v p x).frames = m.frames
  | _, [], _ => rfl
  | v, [_], _ => by cases v <;> rfl
  | v, i :: j :: p, x => by
    rw [writePath]
    cases m.item? v i with
    | none => rfl
    | some w => exact writePath_frames w (j :: p) x

theorem foldl_writePath_frames (v : Value) : ∀ (ws : List (List Nat × Value)) (m : Machine),
    (ws.foldl (fun m w => m.writePath v w.1 w.2) m).frames = m.frames
  | [], _ => rfl
  | w :: ws, _ => (foldl_writePath_frames v ws _).trans (writePath_frames v w.1 w.2)

theorem slot_congr {m' : Machine} (h : m'.frames = m.frames) (frame slot : Nat) :
    m'.slot frame slot = m.slot frame slot := by
  simp only [Machine.slot, h]

theorem slotExists_congr {m' : Machine} (h : m'.frames = m.frames) (frame slot : Nat) :
    m'.slotExists frame slot = m.slotExists frame slot := by
  simp only [Machine.slotExists, h]

theorem slot_writeSlot {frame slot : Nat} {v : Value} (h : m.slotExists frame slot = .ok ()) :
    (m.writeSlot frame slot v).slot frame slot = .ok v := by
  unfold slotExists at h
  cases hf : m.frames[frame]? with
  | none => simp [hf] at h
  | some f =>
    have hs : slot < f.slots.size := by simpa [hf] using h
    simp [Machine.slot, writeSlot, Array.getElem?_modify, hf, hs]

theorem items?_writeSlot (frame slot : Nat) (v : Value) (a : Nat) :
    (m.writeSlot frame slot v).items? a = m.items? a := rfl

theorem Shaped.readPath_isSome : ∀ {ds : List Nat} {v : Value} {q : List Nat}, m.Shaped ds v →
    InBounds ds q → (m.readPath v q).isSome
  | [], _, [], _, _ => rfl
  | _ :: _, _, i :: _, ⟨a, items, hv, ha, hn, hall⟩, hq => by
    subst hv
    obtain ⟨hi, hq⟩ := List.forall₂_cons.mp hq
    have hi' : i < items.size := hn ▸ hi
    rw [readPath_cons, item?_array ha, Array.getElem?_eq_getElem hi', Option.bind_some]
    exact Shaped.readPath_isSome (hall _ (Array.getElem_mem hi')) hq
  | [], _, _ :: _, _, hq | _ :: _, _, [], _, hq => by cases hq

end Machine

namespace Run

variable (p : Typed.Program) {env : Nat} {m : Machine}

theorem eval_constant {e : Typed.Expr} {v : Value} (h : e.kind.constant? = some v) (fuel : Nat) :
    (eval p (fuel + 2) e env).run.run m = (.ok v, m) := by
  obtain ⟨kind, ty, span⟩ := e
  cases kind with
  | int | float | str | bool | null =>
    simp only [Typed.ExprKind.constant?, Option.some.injEq] at h
    subst h
    rw [eval]
    rfl
  | intToFloat inner =>
    obtain ⟨kind, ty', span'⟩ := inner
    cases kind <;> simp only [Typed.ExprKind.constant?, Option.some.injEq, reduceCtorEq] at h
    subst h
    rw [eval]
    simp only
    rw [Exec.run_bind_ok (by rw [eval]; rfl)]
    rfl
  | _ => simp [Typed.ExprKind.constant?] at h

theorem evalIndex_int {idx : Typed.Expr} {i : Int64} (h : idx.kind = .int i) (fuel : Nat) :
    (evalIndex p (fuel + 2) idx env).run.run m = (.ok i, m) := by
  obtain ⟨kind, ty, span⟩ := idx
  dsimp only at h
  subst h
  rw [evalIndex, eval]
  rfl

theorem eval_local_here {b : Typed.Expr} {slot : Nat} {v : Value} (hb : b.kind = .local 0 slot)
    (hv : m.slot env slot = .ok v) (fuel : Nat) :
    (eval p (fuel + 1) b env).run.run m = (.ok v, m) := by
  obtain ⟨kind, ty, span⟩ := b
  dsimp only at hb
  subst hb
  rw [eval]
  simp only [inspect]
  rw [Exec.run_get_bind]
  simp only [Machine.ancestor, bind, Except.bind, hv, charge]
  rfl

theorem eval_index {arr idx : Typed.Expr} {ty : Ty} {span : Span} {fuel a : Nat}
    {items : Array Value} {i : Int64} {w : Value}
    (harr : (eval p fuel arr env).run.run m = (.ok (.array a), m))
    (hidx : (evalIndex p fuel idx env).run.run m = (.ok i, m)) (ha : m.items? a = some items)
    (h0 : 0 ≤ i.toInt) (hw : items[i.toInt.toNat]? = some w) :
    (eval p (fuel + 1) ⟨.index arr idx, ty, span⟩ env).run.run m = (.ok w, m) := by
  obtain ⟨hlt, -⟩ := Array.getElem?_eq_some_iff.mp hw
  have hk : checkedIndex i items.size = .ok i.toInt.toNat := if_pos ⟨h0, by omega⟩
  rw [eval]
  simp only
  rw [Exec.run_bind_ok harr, Exec.run_bind_ok hidx]
  simp only
  rw [Exec.run_get_bind]
  simp only [ha, Option.getD_some, hk, charge, pure_bind, Array.getD_eq_getD_getElem?, hw]
  rfl

theorem eval_indexes {b : Typed.Expr} {v : Value}
    (hb : ∀ fuel, (eval p (fuel + 1) b env).run.run m = (.ok v, m)) {path : List Int64}
    {e : Typed.Expr} (he : b.Indexes path e) (h0 : ∀ i ∈ path, 0 ≤ i.toInt) {w : Value}
    (hw : m.readPath v (positions path) = some w) (fuel : Nat) :
    (eval p (fuel + path.length + 2) e env).run.run m = (.ok w, m) := by
  induction he generalizing w fuel with
  | here =>
    cases hw
    exact hb (fuel + 1)
  | @index path arr idx i ty span _ hidx ih =>
    rw [positions_append_single] at hw
    obtain ⟨a, items, harr, ha, hk⟩ := Machine.readPath_append_single hw
    obtain ⟨h0', hi⟩ := List.forall_mem_append.mp h0
    rw [List.length_append, List.length_singleton, ← Nat.add_assoc, Nat.add_right_comm]
    exact eval_index p (ih h0' harr fuel) (evalIndex_int p hidx (fuel + path.length)) ha
      (hi i (List.mem_singleton_self i)) hk

theorem assign_index (span : Span) {arr idx value : Typed.Expr} {fuel a : Nat}
    {items : Array Value} {i : Int64} {x : Value}
    (harr : (eval p fuel arr env).run.run m = (.ok (.array a), m))
    (hidx : (evalIndex p fuel idx env).run.run m = (.ok i, m))
    (hval : (eval p fuel value env).run.run m = (.ok x, m)) (ha : m.items? a = some items)
    (h0 : 0 ≤ i.toInt) (hi : i.toInt.toNat < items.size) :
    (assign p (fuel + 1) (.index arr idx) value env span).run.run m =
      (.ok x, m.writeItem a i.toInt.toNat x) := by
  have hk : checkedIndex i items.size = .ok i.toInt.toNat := if_pos ⟨h0, by omega⟩
  rw [assign]
  rw [Exec.run_bind_ok harr, Exec.run_bind_ok hidx, Exec.run_bind_ok hval]
  simp only [inspect, bind_assoc]
  rw [Exec.run_get_bind]
  simp only [ha, Option.map_some, Option.getD_some, hk, charge, pure_bind]
  rfl

theorem exec_assigns {b : Typed.Expr} {v : Value}
    (hb : ∀ fuel, (eval p (fuel + 1) b env).run.run m = (.ok v, m)) {path : List Int64}
    {x : Value} {s : Typed.Stmt} (hs : s.Assigns b path x) (h0 : ∀ i ∈ path, 0 ≤ i.toInt)
    (hin : (m.readPath v (positions path)).isSome) (fuel : Nat) :
    (exec p (fuel + path.length + 4) s env).run.run m =
      (.ok .normal, m.writePath v (positions path) x) := by
  obtain @⟨path, arr, idx, value, i, x, ty, span, span', harr, hidx, hval⟩ := hs
  obtain ⟨w, hw⟩ := Option.isSome_iff_exists.mp hin
  rw [positions_append_single] at hw ⊢
  obtain ⟨a, items, hpath, ha, hk⟩ := Machine.readPath_append_single hw
  obtain ⟨h0', hi⟩ := List.forall_mem_append.mp h0
  have hrun := assign_index p span (eval_indexes p hb harr h0' hpath fuel)
    (evalIndex_int p hidx (fuel + path.length)) (eval_constant p hval (fuel + path.length)) ha
    (hi i (List.mem_singleton_self i)) (Array.getElem?_eq_some_iff.mp hk).1
  rw [List.length_append, List.length_singleton,
    show fuel + (path.length + 1) + 4 = fuel + path.length + 2 + 1 + 1 + 1 by omega, exec]
  rw [eval]
  simp only
  rw [Exec.run_bind_ok hrun, Machine.writePath_append_single hpath]
  rfl

theorem execStmts_assigns {b : Typed.Expr} {slot : Nat} {v : Value} {ds : List Nat}
    (hb : b.kind = .local 0 slot) :
    ∀ (ss : List Typed.Stmt) (ws : List (List Int64 × Value)) {m : Machine},
      List.Forall₂ (fun s w => s.Assigns b w.1 w.2) ss ws → m.slot env slot = .ok v →
      m.Shaped ds v → (m.arraysOf ds.length v).Nodup →
      (∀ w ∈ ws, (∀ i ∈ w.1, 0 ≤ i.toInt) ∧ InBounds ds (positions w.1)) →
      ∀ fuel, (execStmts p (fuel + ss.length + ds.length + 5) ss env).run.run m =
        (.ok .normal, ws.foldl (fun m w => m.writePath v (positions w.1) w.2) m) := by
  intro ss ws m hsw
  induction hsw generalizing m with
  | nil =>
    intro _ _ _ _ fuel
    rw [List.length_nil, Nat.add_zero, execStmts]
    rfl
  | @cons s w ss ws hs hss ih =>
    intro hv hshape hnd hws fuel
    obtain ⟨h0, hin⟩ := hws w List.mem_cons_self
    have hlen : w.1.length = ds.length := by simpa [positions] using hin.length_eq
    have hrun := exec_assigns p (fun f => eval_local_here p hb hv f) hs h0
      (hshape.readPath_isSome hin) (fuel + ss.length + 1)
    rw [hlen, show fuel + ss.length + 1 + ds.length + 4 = fuel + ss.length + ds.length + 5 by omega]
      at hrun
    have hne : positions w.1 ≠ [] := by simpa [positions] using hs.path_ne_nil
    obtain ⟨hshape', harrays, -⟩ := hshape.writePath (x := w.2) hnd hin hne
    have hv' : (m.writePath v (positions w.1) w.2).slot env slot = .ok v := by
      rw [Machine.slot_congr (Machine.writePath_frames _ _ _), hv]
    rw [List.length_cons, show fuel + (ss.length + 1) + ds.length + 5 =
      fuel + ss.length + ds.length + 5 + 1 by omega, execStmts]
    rw [Exec.run_bind_ok hrun, List.foldl_cons]
    exact ih hv' hshape' (harrays ▸ hnd) (fun w' hw' => hws w' (List.mem_cons_of_mem _ hw')) fuel

theorem exec_sizedArray {slot : Nat} {T : Ty} {ds : List Nat} {span : Span} {v : Value}
    {m₁ : Machine} (halloc : (allocate T ds).run.run m = (.ok v, m₁))
    (hslot : m₁.slotExists env slot = .ok ()) (fuel : Nat) :
    (exec p (fuel + 1) (.sizedArray slot T ds span) env).run.run m =
      (.ok .normal, m₁.writeSlot env slot v) := by
  rw [exec]
  rw [Exec.run_bind_ok (chargeOp_run_ok halloc)]
  simp only [inspect, bind_assoc]
  rw [Exec.run_get_bind]
  simp only [hslot, charge, pure_bind]
  rfl

end Run

/-- Sized arrays share no storage. `allocate T (n :: ds)` lays out a nest of new arrays from any
machine; and a declaration `b: T[n]...` of a variable of the current frame, followed by assignments
of literals to elements of `b` along paths in bounds, runs to its end, after which every index
chain of `b` in bounds reads the last value assigned along its path, or the default value of `T`
where none was. -/
theorem sized_arrays_share_no_storage (p : Typed.Program) (T : Ty) (n : Nat) (ds : List Nat) :
    AllocatesFrom T (n :: ds) ∧
      ∀ (m : Machine) (env slot : Nat) (span : Span) (b : Typed.Expr) (ss : List Typed.Stmt)
        (ws : List (List Int64 × Value)), m.slotExists env slot = .ok () →
        b.kind = .local 0 slot → List.Forall₂ (fun s w => s.Assigns b w.1 w.2) ss ws →
        (∀ w ∈ ws, (∀ i ∈ w.1, 0 ≤ i.toInt) ∧ InBounds (n :: ds) (positions w.1)) →
        ∃ m', (∀ fuel, (Run.execStmts p (fuel + ss.length + ds.length + 7)
            (.sizedArray slot T (n :: ds) span :: ss) env).run.run m = (.ok .normal, m')) ∧
          ∀ (q : List Int64) (e : Typed.Expr), b.Indexes q e → (∀ i ∈ q, 0 ≤ i.toInt) →
            InBounds (n :: ds) (positions q) → ∀ fuel,
              (Run.eval p (fuel + q.length + 2) e env).run.run m' =
                (.ok (lastWritten (ws.map fun w => (positions w.1, w.2)) (positions q)
                  (Value.default T)), m') := by
  refine ⟨allocate_lays_out T (n :: ds), fun m env slot span b ss ws hslot hb hss hws => ?_⟩
  obtain ⟨v, m₁, halloc, -, -, hv⟩ := allocate_lays_out T (n :: ds) m
  have hframes : m₁.frames = m.frames := by
    have h := allocate_keepsFrames T (n :: ds) m
    rwa [halloc] at h
  have hslot₁ : m₁.slotExists env slot = .ok () := by
    rw [Machine.slotExists_congr hframes, hslot]
  have hv₂ : (m₁.writeSlot env slot v).slot env slot = .ok v := Machine.slot_writeSlot hslot₁
  obtain ⟨hshape, harrays, hleaves⟩ :=
    hv.shaped.congr fun a _ => Machine.items?_writeSlot env slot v a
  have hnd := harrays ▸ hv.arrays_nodup
  have hrun := Run.execStmts_assigns p hb ss ws hss hv₂ hshape hnd hws
  refine ⟨(ws.map fun w => (positions w.1, w.2)).foldl (fun m w => m.writePath v w.1 w.2)
    (m₁.writeSlot env slot v), fun fuel => ?_, fun q e he h0 hq fuel => ?_⟩
  · rw [show fuel + ss.length + ds.length + 7 = fuel + ss.length + ds.length + 5 + 1 + 1 by omega,
      Run.execStmts, Exec.run_bind_ok (Run.exec_sizedArray p halloc hslot₁ _), List.foldl_map]
    have h := hrun fuel
    rw [List.length_cons, show fuel + ss.length + (ds.length + 1) + 5 =
      fuel + ss.length + ds.length + 6 by omega] at h
    exact h
  · have hread := hshape.writePaths (ws.map fun w => (positions w.1, w.2)) hnd (fun w' hw' => by
      obtain ⟨w, hw, rfl⟩ := List.mem_map.mp hw'
      exact ⟨(hws w hw).2, (hws w hw).2.ne_nil⟩) _ hq _ ((hleaves _ hq).trans (hv.leaves _ hq))
    exact Run.eval_indexes p (fun f => Run.eval_local_here p hb
      (by rw [Machine.slot_congr (Machine.foldl_writePath_frames _ _ _), hv₂]) f) he h0 hread fuel

theorem two_by_two_array_reads_its_assignment :
    let b : Typed.Expr := ⟨.local 0 0, .array (.array .int), ⟨0, 0⟩⟩
    let s : Typed.Stmt := .expr ⟨.assign (.index ⟨.index b ⟨.int 0, .int, ⟨0, 0⟩⟩, .array .int, ⟨0, 0⟩⟩
      ⟨.int 1, .int, ⟨0, 0⟩⟩) ⟨.int 5, .int, ⟨0, 0⟩⟩, .int, ⟨0, 0⟩⟩ ⟨0, 0⟩
    let ws : List (List Int64 × Value) := [([0, 1], .int 5)]
    let m : Machine := ⟨#[], #[⟨#[.null], none, none⟩], ""⟩
    m.slotExists 0 0 = .ok () ∧ List.Forall₂ (fun s w => s.Assigns b w.1 w.2) [s] ws ∧
      (∀ w ∈ ws, (∀ i ∈ w.1, 0 ≤ i.toInt) ∧ InBounds [2, 2] (positions w.1)) ∧
      ∃ m', (∀ fuel, (Run.execStmts default (fuel + 1 + 1 + 7)
          [.sizedArray 0 .int [2, 2] ⟨0, 0⟩, s] 0).run.run m = (.ok .normal, m')) ∧
        ∀ (q : List Int64) (e : Typed.Expr), b.Indexes q e → (∀ i ∈ q, 0 ≤ i.toInt) →
          InBounds [2, 2] (positions q) → ∀ fuel,
            (Run.eval default (fuel + q.length + 2) e 0).run.run m' =
              (.ok (lastWritten (ws.map fun w => (positions w.1, w.2)) (positions q)
                (Value.default .int)), m') := by
  intro b s ws m
  have hss : List.Forall₂ (fun s w => s.Assigns b w.1 w.2) [s] ws :=
    .cons (show Typed.Stmt.Assigns b ([] ++ [0] ++ [1]) (.int 5) s from
      .intro (.index .here rfl) rfl rfl) .nil
  have hws : ∀ w ∈ ws, (∀ i ∈ w.1, 0 ≤ i.toInt) ∧ InBounds [2, 2] (positions w.1) := by
    simp [ws, positions, InBounds]
  exact ⟨rfl, hss, hws,
    (sized_arrays_share_no_storage default .int 2 [2]).2 m 0 0 ⟨0, 0⟩ b [s] ws rfl rfl hss hws⟩

end Sigh
