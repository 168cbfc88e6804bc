import Sigh.Proofs.Heap

namespace Sigh

theorem Op.run_bind_ok {α β : Type} {x : Op α} {f : α → Op β} {m m₁ : Machine} {a : α}
    (h : x.run.run m = (.ok a, m₁)) : (x >>= f).run.run m = (f a).run.run m₁ := by
  simp only [ExceptT.run_bind, StateT.run_bind, h]
  rfl

theorem Op.run_map_ok {α β : Type} {x : Op α} {g : α → β} {m m₁ : Machine} {a : α}
    (h : x.run.run m = (.ok a, m₁)) : (g <$> x).run.run m = (.ok (g a), m₁) := by
  rw [← bind_pure_comp, Op.run_bind_ok h]
  rfl

theorem Op.run_mapM_of_forall {α β : Type} {f : α → Op β} {g : α → β} {m : Machine} :
    ∀ {xs : List α}, (∀ x ∈ xs, (f x).run.run m = (.ok (g x), m)) →
      (xs.mapM f).run.run m = (.ok (xs.map g), m)
  | [], _ => rfl
  | x :: xs, hf => by
    rw [List.mapM_cons, Op.run_bind_ok (hf x List.mem_cons_self),
      Op.run_bind_ok (Op.run_mapM_of_forall fun y hy => hf y (List.mem_cons_of_mem x hy))]
    rfl

theorem Op.bind_ok {α β : Type} {x : Op α} {f : α → Op β} {m m' : Machine} {b : β}
    (h : (x >>= f).run.run m = (.ok b, m')) :
    ∃ a m₁, x.run.run m = (.ok a, m₁) ∧ (f a).run.run m₁ = (.ok b, m') := by
  simp only [ExceptT.run_bind, StateT.run_bind] at h
  rcases hx : x.run.run m with ⟨_ | a, m₁⟩
  · rw [hx] at h
    cases h
  · rw [hx] at h
    exact ⟨a, m₁, rfl, h⟩

theorem Op.run_bind_error {α β : Type} {x : Op α} {f : α → Op β} {m m₁ : Machine} {e : Fault}
    (h : x.run.run m = (.error e, m₁)) : (x >>= f).run.run m = (.error e, m₁) := by
  simp only [ExceptT.run_bind, StateT.run_bind, h]
  rfl

theorem Op.run_bind_pure {α β : Type} {x : Op α} {f : α → Op β} {e : Except Fault α}
    {g : α → Except Fault β} {m : Machine} (hx : x.run.run m = (e, m))
    (hf : ∀ a, (f a).run.run m = (g a, m)) : (x >>= f).run.run m = (e >>= g, m) := by
  cases e with
  | error err => exact Op.run_bind_error hx
  | ok a => rw [Op.run_bind_ok hx, hf]; rfl

theorem Op.run_foldlM {γ α : Type} {f : γ → α → Op γ} {g : γ → α → Except Fault γ}
    {m : Machine} : ∀ {xs : List α}, (∀ x ∈ xs, ∀ acc, (f acc x).run.run m = (g acc x, m)) →
      ∀ init, (xs.foldlM f init).run.run m = (xs.foldlM g init, m)
  | [], _, _ => rfl
  | x :: xs, hf, init => by
    rw [List.foldlM_cons, List.foldlM_cons]
    exact Op.run_bind_pure (hf x List.mem_cons_self init)
      (Op.run_foldlM fun y hy => hf y (List.mem_cons_of_mem x hy))

/-- Running `x` from `m` gives a result that `ok` accepts, on a machine that keeps every object
of `m`, or stops with a fault that `bad` accepts. -/
def Op.Gives {α : Type} (x : Op α) (m : Machine) (ok : α → Machine → Prop)
    (bad : Fault → Prop) : Prop :=
  match x.run.run m with
  | (.ok a, m') => m.Grows m' ∧ ok a m'
  | (.error f, _) => bad f

namespace Op.Gives

variable {α β : Type} {m : Machine} {ok : α → Machine → Prop} {bad : Fault → Prop}

theorem result {x : Op α} (h : Gives x m ok bad) :
    match x.run.run m with
    | (.ok a, m') => ok a m'
    | (.error f, _) => bad f := by
  unfold Gives at h
  split at h
  · exact h.2
  · exact h

theorem of_run {x : Op α} {a : α} {m' : Machine} (hx : x.run.run m = (.ok a, m'))
    (hg : m.Grows m') (h : ok a m') : Gives x m ok bad := by
  unfold Gives
  rw [hx]
  exact ⟨hg, h⟩

theorem of_run_error {x : Op α} {f : Fault} {m' : Machine} (hx : x.run.run m = (.error f, m'))
    (h : bad f) : Gives x m ok bad := by
  unfold Gives
  rw [hx]
  exact h

theorem pure {a : α} (h : ok a m) : Gives (Pure.pure a) m ok bad :=
  of_run rfl (.refl m) h

theorem throw {f : Fault} (h : bad f) : Gives (MonadExcept.throw f : Op α) m ok bad :=
  of_run_error rfl h

theorem mono {x : Op α} {ok' : α → Machine → Prop} {bad' : Fault → Prop}
    (h : Gives x m ok bad)
    (hok : ∀ a m', m.Grows m' → ok a m' → ok' a m') (hbad : ∀ f, bad f → bad' f) :
    Gives x m ok' bad' := by
  unfold Gives at h ⊢
  split at h
  · exact ⟨h.1, hok _ _ h.1 h.2⟩
  · exact hbad _ h

theorem bind {x : Op α} {f : α → Op β} {mid : α → Machine → Prop}
    {ok' : β → Machine → Prop}
    (hx : Gives x m mid bad) (hf : ∀ a m', m.Grows m' → mid a m' → Gives (f a) m' ok' bad) :
    Gives (x >>= f) m ok' bad := by
  unfold Gives at hx ⊢
  rcases hr : x.run.run m with ⟨_ | a, m₁⟩
  · rw [hr] at hx
    rw [Op.run_bind_error hr]
    exact hx
  · rw [hr] at hx
    rw [Op.run_bind_ok hr]
    have hn := hf a m₁ hx.1 hx.2
    unfold Gives at hn
    split at hn
    · exact ⟨hx.1.trans hn.1, hn.2⟩
    · exact hn

theorem throw_bind {f : Fault} {g : α → Op β} {ok' : β → Machine → Prop} (h : bad f) :
    Gives (MonadExcept.throw f >>= g) m ok' bad :=
  of_run_error rfl h

theorem map {x : Op α} {g : α → β} {ok' : β → Machine → Prop} (hx : Gives x m ok bad)
    (hg : ∀ a m', ok a m' → ok' (g a) m') : Gives (g <$> x) m ok' bad := by
  rw [← bind_pure_comp]
  exact hx.bind fun a m' _ h => pure (hg a m' h)

theorem get : Gives (MonadState.get : Op Machine) m (fun m₀ m' => m₀ = m ∧ m' = m) bad :=
  of_run rfl (.refl m) ⟨rfl, rfl⟩

theorem list_mapM {f : α → Op β} {q : β → Machine → Prop}
    (hq : ∀ b m₁ m₂, q b m₁ → m₁.Grows m₂ → q b m₂) :
    ∀ (xs : List α) (m : Machine),
      (∀ a ∈ xs, ∀ m', m.Grows m' → Gives (f a) m' q bad) →
      Gives (xs.mapM f) m (fun bs m' => ∀ b ∈ bs, q b m') bad
  | [], m, _ => pure (List.forall_mem_nil _)
  | a :: xs, m, hf => by
    rw [List.mapM_cons]
    refine (hf a List.mem_cons_self m (.refl m)).bind fun b m₁ hg₁ hb => ?_
    refine (list_mapM hq xs m₁ fun a' ha' m' hg => hf a' (List.mem_cons_of_mem _ ha') m'
      (hg₁.trans hg)).bind fun bs m₂ hg₂ hbs => pure ?_
    intro b' hb'
    rcases List.mem_cons.mp hb' with rfl | hb'
    · exact hq _ _ _ hb hg₂
    · exact hbs b' hb'

theorem array_mapM {f : α → Op β} {q : β → Machine → Prop}
    (hq : ∀ b m₁ m₂, q b m₁ → m₁.Grows m₂ → q b m₂) (xs : Array α)
    (hf : ∀ a ∈ xs, ∀ m', m.Grows m' → Gives (f a) m' q bad) :
    Gives (xs.mapM f) m (fun bs m' => ∀ b ∈ bs, q b m') bad := by
  rw [Array.mapM_eq_mapM_toList]
  exact (list_mapM hq xs.toList m fun a ha => hf a (Array.mem_toList_iff.mp ha)).map
    fun bs m' h b hb => h b (by simpa using hb)

theorem list_foldlM {γ : Type} {f : γ → α → Op γ} {I : γ → Machine → Prop} :
    ∀ (xs : List α) (init : γ) (m : Machine), I init m →
      (∀ a ∈ xs, ∀ acc m', m.Grows m' → I acc m' → Gives (f acc a) m' I bad) →
      Gives (xs.foldlM f init) m I bad
  | [], _, _, hinit, _ => pure hinit
  | a :: xs, init, m, hinit, hf => by
    rw [List.foldlM_cons]
    exact (hf a List.mem_cons_self init m (.refl m) hinit).bind fun acc m₁ hg₁ hacc =>
      list_foldlM xs acc m₁ hacc fun a' ha' acc' m' hg hacc' =>
        hf a' (List.mem_cons_of_mem _ ha') acc' m' (hg₁.trans hg) hacc'

theorem array_foldlM {γ : Type} {f : γ → α → Op γ} {I : γ → Machine → Prop}
    (xs : Array α)
    (init : γ) (hinit : I init m)
    (hf : ∀ a ∈ xs, ∀ acc m', m.Grows m' → I acc m' → Gives (f acc a) m' I bad) :
    Gives (xs.foldlM f init) m I bad := by
  rw [← Array.foldlM_toList]
  exact list_foldlM xs.toList init m hinit fun a ha => hf a (Array.mem_toList_iff.mp ha)

end Op.Gives

open Op.Gives

theorem newArray_gives {m : Machine} {bad : Fault → Prop} (items : Array Value) :
    Op.Gives (newArray items) m
      (fun v m' => v = .array m.objects.size ∧ m'.items? m.objects.size = some items) bad :=
  of_run rfl (Machine.grows_alloc m _) ⟨rfl, Machine.items?_alloc m items⟩

theorem Op.get_bind_run {α : Type} (f : Machine → Op α) (m : Machine) :
    (MonadState.get >>= f : Op α).run.run m = (f m).run.run m := rfl

theorem arrayItems_array {m : Machine} {a : Nat} {items : Array Value} (context : String)
    (h : m.items? a = some items) : (arrayItems (.array a) context).run.run m = (.ok items, m) := by
  rw [arrayItems, Op.get_bind_run, h]
  rfl

theorem arrayItems_gives {m : Machine} {a : Nat} {items : Array Value} {bad : Fault → Prop}
    (context : String) (h : m.items? a = some items) :
    Op.Gives (arrayItems (.array a) context) m (fun items' m' => items' = items ∧ m' = m) bad :=
  Op.Gives.of_run (arrayItems_array context h) (.refl m) ⟨rfl, rfl⟩

theorem arrayItems_null (m : Machine) (context : String) :
    (arrayItems .null context).run.run m = (.error (.nullPointer context), m) := rfl

theorem liftFault_run {α : Type} (r : Except Fault α) (m : Machine) :
    (liftFault r).run.run m = (r, m) := by
  cases r <;> rfl

theorem arithmeticOn_run {p : Typed.Program} (op : BinOp) (l r : Value) (strict : Bool)
    (m : Machine) :
    (arithmeticOn p op l r strict).run.run m = (arithmetic (render p m) op l r strict, m) := by
  rw [arithmeticOn, Op.get_bind_run, liftFault_run]

theorem arithmeticOn_gives {p : Typed.Program} {m : Machine} {bad : Fault → Prop} (op : BinOp)
    (l r : Value) (strict : Bool)
    (hbad : ∀ f, arithmetic (render p m) op l r strict = .error f → bad f) :
    Op.Gives (arithmeticOn p op l r strict) m
      (fun v m' => m' = m ∧ arithmetic (render p m) op l r strict = .ok v) bad := by
  unfold Op.Gives
  rw [arithmeticOn_run]
  cases h : arithmetic (render p m) op l r strict with
  | ok v => exact ⟨.refl m, rfl, rfl⟩
  | error f => exact hbad f h

theorem arrayItems_conforms {p : Typed.Program} {m : Machine} {v : Value} {c : Ty}
    {bad : Fault → Prop} {context : String} (hbad : bad (.nullPointer context))
    (h : v.conforms p m (.array c) = true) :
    Op.Gives (arrayItems v context) m
      (fun items m' => m' = m ∧ ∀ w ∈ items, w.conforms p m c = true) bad := by
  rcases Value.conforms_array_type h with rfl | ⟨a, items, rfl, hitems, hall⟩
  · exact of_run_error (arrayItems_null m context) hbad
  · refine (arrayItems_gives context hitems).mono ?_ fun _ h => h
    rintro _ _ - ⟨rfl, rfl⟩
    exact ⟨rfl, hall⟩

theorem newArray_dense {m : Machine} {items : Array Value} {c : Ty} {bad : Fault → Prop}
    (h : ∀ w ∈ items, w.Dense m c) :
    Op.Gives (newArray items) m (fun v m' => v.Dense m' (.array c)) bad := by
  refine (newArray_gives items).mono ?_ fun _ h => h
  rintro v m' hg ⟨rfl, hitems⟩
  exact Value.dense_array_iff.mpr ⟨items, hitems, fun w hw => Value.Dense.grows (h w hw) hg⟩

end Sigh
