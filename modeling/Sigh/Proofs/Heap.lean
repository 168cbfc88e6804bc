import Sigh.Proofs.Conformance

namespace Sigh

/-- `m.Reaches a c b`: from the array at `a`, `c` steps to an element that is an array lead to
the array at `b`. -/
inductive Machine.Reaches (m : Machine) : Nat → Nat → Nat → Prop
  | refl (a : Nat) : Machine.Reaches m a 0 a
  | step {a b c d : Nat} {items : Array Value} : m.items? a = some items →
      Value.array b ∈ items → Machine.Reaches m b c d → Machine.Reaches m a (c + 1) d

/-- The machine `m'` keeps every object of `m` at its address. -/
def Machine.Grows (m m' : Machine) : Prop :=
  ∀ (a : Nat) (o : Object), m.objects[a]? = some o → m'.objects[a]? = some o

namespace Machine

theorem lt_of_items? {m : Machine} {a : Nat} {items : Array Value}
    (h : m.items? a = some items) : a < m.objects.size := by
  unfold items? at h
  split at h
  · rename_i heq
    exact (Array.getElem?_eq_some_iff.mp heq).1
  · cases h

namespace Grows

variable {m m₁ m₂ m₃ : Machine}

theorem refl (m : Machine) : m.Grows m := fun _ _ h => h

theorem trans (h₁ : m₁.Grows m₂) (h₂ : m₂.Grows m₃) : m₁.Grows m₃ :=
  fun a o h => h₂ a o (h₁ a o h)

theorem items (h : m₁.Grows m₂) {a : Nat} {items : Array Value}
    (hi : m₁.items? a = some items) : m₂.items? a = some items := by
  unfold items? at hi ⊢
  split at hi
  · rename_i heq
    cases hi
    rw [h a _ heq]
  · cases hi

theorem inst (h : m₁.Grows m₂) {a : Nat} {x : Nat × Nat × Array Value}
    (hi : m₁.inst? a = some x) : m₂.inst? a = some x := by
  unfold inst? at hi ⊢
  split at hi
  · rename_i heq
    cases hi
    rw [h a _ heq]
  · cases hi

end Grows

theorem grows_alloc (m : Machine) (o : Object) : m.Grows (m.alloc o).2 := by
  intro a o' h
  rw [alloc_objects, Array.getElem?_push, if_neg (Nat.ne_of_lt (Array.getElem?_eq_some_iff.mp h).1)]
  exact h

theorem items?_alloc (m : Machine) (items : Array Value) :
    (m.alloc (.array items)).2.items? m.objects.size = some items := by
  simp [items?, alloc_objects]

end Machine

theorem Ty.array_induction {P : Ty → Prop} (array : ∀ c, P c → P (.array c))
    (leaf : ∀ t, (∀ c, t ≠ .array c) → P t) : ∀ t, P t
  | .array c => array c (Ty.array_induction array leaf c)
  | .int | .float | .bool | .string | .void | .null | .type | .struct .. | .fn .. =>
    leaf _ fun _ h => by cases h

namespace Value

variable {p : Typed.Program} {m m' : Machine}

@[simp] theorem conforms_null (t : Ty) : Value.null.conforms p m t = true := by
  cases t <;> rfl

theorem conforms_array_iff {a : Nat} {c : Ty} :
    (Value.array a).conforms p m (.array c) = true ↔
      ∃ items, m.items? a = some items ∧ ∀ w ∈ items, w.conforms p m c = true := by
  simp only [Value.conforms, Option.any_eq_true, Array.all_eq_true_iff_forall_mem]

theorem conforms_array_type {v : Value} {c : Ty} (h : v.conforms p m (.array c) = true) :
    v = .null ∨ ∃ a items, v = .array a ∧ m.items? a = some items ∧
      ∀ w ∈ items, w.conforms p m c = true := by
  cases v with
  | null => exact .inl rfl
  | array a => exact .inr ⟨a, by simpa using conforms_array_iff.mp h⟩
  | closure fn _ | method _ fn =>
    simp only [Value.conforms, Option.any_eq_true] at h
    obtain ⟨f, -, hf⟩ := h
    simp [Typed.Function.ty, BEq.beq, Ty.beq] at hf
  | _ => simp [Value.conforms, BEq.beq, Ty.beq] at h

theorem eq_array_of_conforms {a : Nat} {t : Ty} (h : (Value.array a).conforms p m t = true) :
    ∃ c, t = .array c := by
  cases t with
  | array c => exact ⟨c, rfl⟩
  | _ => simp [Value.conforms] at h

theorem conforms.grows {v : Value} {t : Ty} (h : v.conforms p m t = true) (hg : m.Grows m') :
    v.conforms p m' t = true := by
  induction t using Ty.array_induction generalizing v with
  | array c ih =>
    rcases conforms_array_type h with rfl | ⟨a, items, rfl, hitems, hall⟩
    · exact conforms_null _
    · exact conforms_array_iff.mpr ⟨items, hg.items hitems, fun w hw => ih (hall w hw)⟩
  | leaf t ht =>
    cases v with
    | struct a =>
      cases t with
      | struct id name =>
        simp only [Value.conforms, Option.any_eq_true] at h ⊢
        obtain ⟨x, hx, hid⟩ := h
        exact ⟨x, hg.inst hx, hid⟩
      | _ => simp [Value.conforms] at h
    | array a =>
      obtain ⟨c, rfl⟩ := eq_array_of_conforms h
      exact absurd rfl (ht c)
    | _ => cases t <;> simp_all [Value.conforms]

/-- `v` is nested arrays of the depth of `t` with no `null` anywhere, whose leaves are integers,
floats or strings as the leaf of `t` is. -/
def Dense (m : Machine) : Value → Ty → Prop
  | .int _, .int | .float _, .float | .str _, .string => True
  | .array a, .array c => ∃ items, m.items? a = some items ∧ ∀ v ∈ items, Dense m v c
  | _, _ => False
termination_by structural _ t => t

theorem dense_array_iff {a : Nat} {c : Ty} :
    (Value.array a).Dense m (.array c) ↔
      ∃ items, m.items? a = some items ∧ ∀ v ∈ items, v.Dense m c := by
  simp [Dense]

theorem Dense.conforms {v : Value} {t : Ty} (h : v.Dense m t) : v.conforms p m t = true := by
  induction t using Ty.array_induction generalizing v with
  | array c ih =>
    cases v with
    | array a =>
      obtain ⟨items, hitems, hall⟩ := dense_array_iff.mp h
      exact conforms_array_iff.mpr ⟨items, hitems, fun w hw => ih (hall w hw)⟩
    | _ => simp [Dense] at h
  | leaf t ht => cases v <;> cases t <;> simp_all [Dense, Value.conforms]

theorem Dense.grows {v : Value} {t : Ty} (h : v.Dense m t) (hg : m.Grows m') : v.Dense m' t := by
  induction t using Ty.array_induction generalizing v with
  | array c ih =>
    cases v with
    | array a =>
      obtain ⟨items, hitems, hall⟩ := dense_array_iff.mp h
      exact dense_array_iff.mpr ⟨items, hg.items hitems, fun w hw => ih (hall w hw)⟩
    | _ => simp [Dense] at h
  | leaf t ht => cases v <;> cases t <;> simp_all [Dense]

/-- `v` starts a chain of `k` arrays on `m`, each an element of the one before. -/
def Nested (m : Machine) : Nat → Value → Prop
  | 0, _ => True
  | k + 1, v =>
    ∃ a items, v = .array a ∧ m.items? a = some items ∧ ∃ w ∈ items, Nested m k w

theorem not_nested_of_mem {a : Nat} {items : Array Value} {k : Nat}
    (h : ¬ (Value.array a).Nested m (k + 1)) (hitems : m.items? a = some items) :
    ∀ w ∈ items, ¬ w.Nested m k :=
  fun w hw hn => h ⟨a, items, rfl, hitems, w, hw, hn⟩

theorem Nested.pred {v : Value} {k : Nat} (h : v.Nested m (k + 1)) : v.Nested m k := by
  induction k generalizing v with
  | zero => trivial
  | succ k ih =>
    obtain ⟨a, items, rfl, hitems, w, hw, hn⟩ := h
    exact ⟨a, items, rfl, hitems, w, hw, ih hn⟩

theorem Nested.walk {v : Value} {k : Nat} (h : v.Nested m (k + 1)) :
    ∃ g : Nat → Nat, v = .array (g 0) ∧
      (∀ i < k, ∃ items, m.items? (g i) = some items ∧ Value.array (g (i + 1)) ∈ items) ∧
      ∀ i ≤ k, ∃ items, m.items? (g i) = some items := by
  induction k generalizing v with
  | zero =>
    obtain ⟨a, items, rfl, hitems, -⟩ := h
    exact ⟨fun _ => a, rfl, fun i hi => absurd hi (Nat.not_lt_zero i),
      fun _ _ => ⟨items, hitems⟩⟩
  | succ k ih =>
    obtain ⟨a, items, rfl, hitems, w, hw, hn⟩ := h
    obtain ⟨g, rfl, hlink, hall⟩ := ih hn
    refine ⟨fun i => if i = 0 then a else g (i - 1), rfl, fun i hi => ?_, fun i hi => ?_⟩
    · cases i with
      | zero => exact ⟨items, hitems, hw⟩
      | succ i => simpa using hlink i (by omega)
    · cases i with
      | zero => exact ⟨items, hitems⟩
      | succ i => simpa using hall i (by omega)

end Value

namespace Machine.Reaches

variable {p : Typed.Program} {m : Machine}

theorem conforms {a b c : Nat} (h : m.Reaches a c b) {t : Ty}
    (ht : (Value.array a).conforms p m t = true) :
    ∃ t', (Value.array b).conforms p m t' = true ∧ t'.depth + c = t.depth := by
  induction h generalizing t with
  | refl => exact ⟨t, ht, rfl⟩
  | step hitems hmem _ ih =>
    obtain ⟨c', rfl⟩ := Value.eq_array_of_conforms ht
    obtain ⟨items', hitems', hall⟩ := Value.conforms_array_iff.mp ht
    rw [hitems] at hitems'
    cases hitems'
    obtain ⟨t', ht', hdepth⟩ := ih (hall _ hmem)
    exact ⟨t', ht', by simp only [Ty.depth]; omega⟩

theorem not_conforms_of_cycle {a c : Nat} (h : m.Reaches a (c + 1) a) (t : Ty) :
    (Value.array a).conforms p m t = false := by
  induction hd : t.depth using Nat.strong_induction_on generalizing t with
  | _ n ih =>
    rw [Bool.eq_false_iff]
    intro ht
    obtain ⟨t', ht', hdepth⟩ := h.conforms ht
    exact Bool.false_ne_true ((ih t'.depth (by omega) t' rfl).symm.trans ht')

theorem of_walk {g : Nat → Nat} {k : Nat}
    (hlink : ∀ i < k,
      ∃ items, m.items? (g i) = some items ∧ Value.array (g (i + 1)) ∈ items) :
    ∀ d i, i + d ≤ k → m.Reaches (g i) d (g (i + d)) := by
  intro d
  induction d with
  | zero => exact fun i _ => .refl (g i)
  | succ d ih =>
    intro i hi
    obtain ⟨items, hitems, hmem⟩ := hlink i (by omega)
    have hrest := ih (i + 1) (by omega)
    rw [show i + 1 + d = i + (d + 1) by omega] at hrest
    exact .step hitems hmem hrest

end Machine.Reaches

theorem Value.conforms.not_nested {p : Typed.Program} {m : Machine} {v : Value} {t : Ty}
    (h : v.conforms p m t = true) : ¬ v.Nested m (m.objects.size + 1) := by
  intro hn
  obtain ⟨g, rfl, hlink, hall⟩ := hn.walk
  have hmaps : Set.MapsTo g (Finset.range (m.objects.size + 1)) (Finset.range m.objects.size) := by
    intro i hi
    obtain ⟨items, hitems⟩ := hall i (by simpa [Nat.lt_succ_iff] using hi)
    simpa using Machine.lt_of_items? hitems
  obtain ⟨i, hi, j, hj, hne, heq⟩ :=
    Finset.exists_ne_map_eq_of_card_lt_of_maps_to (by simp) hmaps
  have hi' : i ≤ m.objects.size := by simpa [Nat.lt_succ_iff] using hi
  have hj' : j ≤ m.objects.size := by simpa [Nat.lt_succ_iff] using hj
  have hcycle : ∀ x y, x < y → y ≤ m.objects.size → g x = g y → False := by
    intro x y hxy hy hgxy
    obtain ⟨t', ht', -⟩ := (Machine.Reaches.of_walk hlink x 0 (by omega)).conforms h
    rw [Nat.zero_add] at ht'
    have hloop := Machine.Reaches.of_walk hlink (y - x - 1 + 1) x (by omega)
    rw [show x + (y - x - 1 + 1) = y by omega, ← hgxy] at hloop
    exact Bool.false_ne_true ((hloop.not_conforms_of_cycle t').symm.trans ht')
  rcases Nat.lt_or_gt_of_ne hne with hlt | hlt
  · exact hcycle i j hlt hj' heq
  · exact hcycle j i hlt hi' heq.symm

namespace Value

variable {m : Machine}

theorem Nested.mono {v : Value} {j : Nat} (h : v.Nested m j) {i : Nat} (hij : i ≤ j) :
    v.Nested m i := by
  induction j with
  | zero => rwa [Nat.le_zero.mp hij]
  | succ j ih =>
    rcases Nat.lt_or_eq_of_le hij with hlt | rfl
    · exact ih h.pred (by omega)
    · exact h

end Value

namespace Machine.Reaches

variable {m : Machine}

theorem nested {a c b k : Nat} (h : m.Reaches a c b) (hb : (Value.array b).Nested m k) :
    (Value.array a).Nested m (c + k) := by
  induction h with
  | refl => simpa using hb
  | @step a b' c d items hitems hmem _ ih =>
    rw [show c + 1 + k = (c + k) + 1 by omega]
    exact ⟨a, items, rfl, hitems, _, hmem, ih hb⟩

theorem cycle_nested {a c : Nat} (h : m.Reaches a (c + 1) a) (k : Nat) :
    (Value.array a).Nested m k := by
  have hround : ∀ n, (Value.array a).Nested m (n * (c + 1)) := by
    intro n
    induction n with
    | zero => rw [Nat.zero_mul]; trivial
    | succ n ih =>
      rw [Nat.succ_mul, Nat.add_comm]
      exact h.nested ih
  exact (hround k).mono (Nat.le_mul_of_pos_right k (Nat.succ_pos c))

end Machine.Reaches

theorem Value.Nested.pump {m : Machine} {v : Value} (h : v.Nested m (m.objects.size + 1))
    (k : Nat) : v.Nested m k := by
  obtain ⟨g, rfl, hlink, hall⟩ := h.walk
  have hmaps : Set.MapsTo g (Finset.range (m.objects.size + 1)) (Finset.range m.objects.size) := by
    intro i hi
    obtain ⟨items, hitems⟩ := hall i (by simpa [Nat.lt_succ_iff] using hi)
    simpa using Machine.lt_of_items? hitems
  obtain ⟨i, hi, j, hj, hne, heq⟩ :=
    Finset.exists_ne_map_eq_of_card_lt_of_maps_to (by simp) hmaps
  have hi' : i ≤ m.objects.size := by simpa [Nat.lt_succ_iff] using hi
  have hj' : j ≤ m.objects.size := by simpa [Nat.lt_succ_iff] using hj
  have hpump : ∀ x y, x < y → y ≤ m.objects.size → g x = g y →
      (Value.array (g 0)).Nested m k := by
    intro x y hxy hy hgxy
    have hstart := Machine.Reaches.of_walk hlink x 0 (by omega)
    rw [Nat.zero_add] at hstart
    have hloop := Machine.Reaches.of_walk hlink (y - x - 1 + 1) x (by omega)
    rw [show x + (y - x - 1 + 1) = y by omega, ← hgxy] at hloop
    exact (hstart.nested (hloop.cycle_nested k)).mono (by omega)
  rcases Nat.lt_or_gt_of_ne hne with hlt | hlt
  · exact hpump i j hlt hj' heq
  · exact hpump j i hlt hi' heq.symm

end Sigh
