import Sigh.Proofs.ArrayOps
import Sigh.Proofs.DotProduct

namespace Sigh

theorem foldlM_count {α : Type} (bad : α → Bool) (k : α → Nat) (e : Fault) :
    ∀ (xs : List α) (t : Nat),
      xs.foldlM (fun t x => if bad x then (.error e : Except Fault Nat) else .ok (t + k x)) t =
        if xs.any bad then .error e else .ok (t + (xs.map k).sum)
  | [], t => rfl
  | x :: xs, t => by
    rw [List.foldlM_cons]
    by_cases hx : bad x = true
    · simp only [hx, if_true, List.any_cons, Bool.true_or]
      rfl
    · simp only [hx, Bool.false_eq_true, if_false, List.any_cons, Bool.false_or, List.map_cons,
        List.sum_cons]
      rw [← Nat.add_assoc]
      exact foldlM_count bad k e xs (t + k x)

theorem foldlM_stops_on {α β : Type} {f : β → α → Except Fault β} (bad : α → Prop)
    {I : β → Prop} {e : Fault} : ∀ {xs : List α},
      (∀ x ∈ xs, ∀ acc, I acc →
        (bad x → f acc x = .error e) ∧ (¬ bad x → ∃ acc', f acc x = .ok acc' ∧ I acc')) →
      ∀ init, I init →
        ((∃ x ∈ xs, bad x) → xs.foldlM f init = .error e) ∧
          ((∀ x ∈ xs, ¬ bad x) → ∃ r, xs.foldlM f init = .ok r ∧ I r)
  | [], _, init, hI => by
    refine ⟨?_, fun _ => ⟨init, rfl, hI⟩⟩
    rintro ⟨_, hx, _⟩
    cases hx
  | x :: xs, hf, init, hI => by
    rw [List.foldlM_cons]
    obtain ⟨hbad, hgood⟩ := hf x List.mem_cons_self init hI
    by_cases hx : bad x
    · rw [hbad hx]
      exact ⟨fun _ => rfl, fun h => absurd hx (h x List.mem_cons_self)⟩
    · obtain ⟨acc', hacc', hI'⟩ := hgood hx
      have ih := foldlM_stops_on bad (fun y hy => hf y (List.mem_cons_of_mem x hy)) acc' hI'
      rw [hacc']
      refine ⟨fun hy => ?_, fun h => ih.2 fun y hy => h y (List.mem_cons_of_mem x hy)⟩
      obtain ⟨y, hy, hby⟩ := hy
      rcases List.mem_cons.mp hy with rfl | hy
      · exact absurd hby hx
      · exact ih.1 ⟨y, hy, hby⟩

namespace Value

variable (m : Machine)

/-- The leaves of `v` seen at type `t`, left to right: the elements of its arrays through every
array level of the type. A `null` in place of an inner array is a leaf. -/
def leaves : Ty → Value → List Value
  | .array c, .array a => ((m.items? a).getD #[]).toList.flatMap (leaves c)
  | _, v => [v]

/-- `v`, seen at type `t`, has a `null` at a position where the type expects an array. -/
def nullRow : Ty → Value → Bool
  | .array _, .null => true
  | .array c, .array a => ((m.items? a).getD #[]).toList.any (nullRow c)
  | _, _ => false

/-- The sum of `v` seen at type `t`: the elements of each array added left to right to `zero`,
an inner array through its own sum from `zero`; a `null` is a fault. -/
def sumAt (text : Value → String) (zero : Value) : Ty → Value → Except Fault Value
  | .array c, .array a => ((m.items? a).getD #[]).toList.foldlM (fun acc w => do
      arithmetic text .add acc (← sumAt text zero c w) false) zero
  | _, .null => throw (.nullPointer "summing a null element")
  | _, v => pure v

section Unfold

variable {m : Machine} {c t : Ty} {a : Nat} {items : Array Value}

theorem leaves_array (h : m.items? a = some items) :
    (Value.array a).leaves m (.array c) = items.toList.flatMap (leaves m c) := by
  simp [leaves, h]

theorem leaves_of_not_array {v : Value} (hv : ∀ b, v ≠ .array b) : v.leaves m t = [v] := by
  unfold leaves
  split
  · exact absurd rfl (hv _)
  · rfl

theorem leaves_null (t : Ty) : Value.null.leaves m t = [.null] := by
  cases t <;> rfl

theorem nullRow_array (h : m.items? a = some items) :
    (Value.array a).nullRow m (.array c) = items.toList.any (nullRow m c) := by
  simp [nullRow, h]

theorem nullRow_null (t : Ty) : Value.null.nullRow m t = decide (0 < t.depth) := by
  cases t <;> rfl

theorem nullRow_of_not_array {v : Value} (hv : ∀ b, v ≠ .array b) (hn : v ≠ .null) :
    v.nullRow m t = false := by
  unfold nullRow
  split
  · exact absurd rfl hn
  · exact absurd rfl (hv _)
  · rfl

theorem sumAt_array (h : m.items? a = some items) (text : Value → String) (zero : Value) :
    sumAt m text zero (.array c) (.array a) = items.toList.foldlM (fun acc w => do
      arithmetic text .add acc (← sumAt m text zero c w) false) zero := by
  simp [sumAt, h]

theorem sumAt_null (text : Value → String) (zero : Value) (t : Ty) :
    sumAt m text zero t .null = throw (.nullPointer "summing a null element") := by
  cases t <;> rfl

theorem sumAt_of_not_array {v : Value} (hv : ∀ b, v ≠ .array b) (hn : v ≠ .null)
    (text : Value → String) (zero : Value) : sumAt m text zero t v = pure v := by
  unfold sumAt
  split
  · exact absurd rfl (hv _)
  · exact absurd rfl hn
  · rfl

theorem nullRow_of_not_array_type (ht : ∀ c, t ≠ .array c) (v : Value) :
    v.nullRow m t = false := by
  unfold nullRow
  split
  · exact absurd rfl (ht _)
  · exact absurd rfl (ht _)
  · rfl

end Unfold

/-- The integer of an integer value, and zero for any other value. -/
def asInt : Value → Int64
  | .int n => n
  | _ => 0

/-- What `sum` gives on `v` of static type `t`: its sum from the zero of the kind of the leaves. -/
def sumOf (p : Typed.Program) (m : Machine) (t : Ty) (v : Value) : Except Fault Value :=
  sumAt m (render p m) (zeroOf (t.leaf == .float)) t v

theorem null_mem_leaves_of_nullRow {m : Machine} :
    ∀ (t : Ty) {w : Value}, w.nullRow m t = true → .null ∈ w.leaves m t := by
  refine Ty.array_induction (fun c ih => ?_) (fun t ht => ?_)
  · intro w hw
    by_cases hw0 : w = .null
    · subst hw0
      rw [leaves_null]
      exact List.mem_singleton_self _
    by_cases harray : ∃ a, w = .array a
    · obtain ⟨a, rfl⟩ := harray
      simp only [nullRow, leaves] at hw ⊢
      obtain ⟨u, hu, hru⟩ := List.any_eq_true.mp hw
      exact List.mem_flatMap.mpr ⟨u, hu, ih hru⟩
    · rw [nullRow_of_not_array (fun b hb => harray ⟨b, hb⟩) hw0] at hw
      cases hw
  · intro w hw
    rw [nullRow_of_not_array_type ht] at hw
    cases hw

end Value

theorem arithmetic_add_numbers (text : Value → String) {l r : Value} {L : Ty}
    (hl : l.numberType? = some L) (hr : r.numberType? = some L) :
    ∃ s, arithmetic text .add l r false = .ok s ∧ s.numberType? = some L :=
  arithmetic_numbers text (.inl rfl) false hl hr
    (Ty.numericResult?_self (Value.numberType_isNumber hl))

section Sums

variable {p : Typed.Program} {m : Machine} (text : Value → String) {L : Ty} {zero : Value}

theorem sumAt_spec (hz : zero.numberType? = some L) :
    ∀ (t : Ty) {w : Value}, w.conforms p m t = true → Typing.numericLeaf t = some L →
      (.null ∈ w.leaves m t →
          Value.sumAt m text zero t w = .error (.nullPointer "summing a null element")) ∧
        (.null ∉ w.leaves m t →
          ∃ s, Value.sumAt m text zero t w = .ok s ∧ s.numberType? = some L) := by
  refine Ty.array_induction (fun c ih => ?_) (fun t ht => ?_)
  · intro w hw hL
    rw [Typing.numericLeaf_array] at hL
    rcases Value.conforms_array_type hw with rfl | ⟨a, items, rfl, ha, hall⟩
    · rw [Value.leaves_null, Value.sumAt_null]
      exact ⟨fun _ => rfl, fun h => absurd (List.mem_singleton_self _) h⟩
    rw [Value.sumAt_array ha, Value.leaves_array ha]
    simp only [List.mem_flatMap, not_exists, not_and]
    refine foldlM_stops_on (fun w : Value => Value.null ∈ w.leaves m c)
      (fun w hw acc hacc => ?_) zero hz
    obtain ⟨herr, hok⟩ := ih (hall w (Array.mem_toList_iff.mp hw)) hL
    refine ⟨fun hb => by rw [herr hb]; rfl, fun hb => ?_⟩
    obtain ⟨s, hs, hst⟩ := hok hb
    rw [hs]
    exact arithmetic_add_numbers text hacc hst
  · intro w hw hL
    by_cases hw0 : w = .null
    · subst hw0
      rw [Value.leaves_null, Value.sumAt_null]
      exact ⟨fun _ => rfl, fun h => absurd (List.mem_singleton_self _) h⟩
    · have harray : ∀ b, w ≠ .array b := fun b hb => by
        subst hb
        obtain ⟨c, rfl⟩ := Value.eq_array_of_conforms hw
        exact ht c rfl
      rw [Value.leaves_of_not_array harray, Value.sumAt_of_not_array harray hw0]
      refine ⟨fun h => absurd (List.mem_singleton.mp h) (Ne.symm hw0), fun _ => ?_⟩
      exact ⟨w, rfl, Value.numberType_of_leaf hw hL hw0 harray⟩

theorem foldlM_add_ints : ∀ (ns : List Int64) (t0 : Int64),
    (ns.map Value.int).foldlM (fun acc v => arithmetic text .add acc v false) (.int t0) =
      .ok (.int (t0 + Int64.ofInt (ns.map Int64.toInt).sum))
  | [], t0 => by simp; rfl
  | n :: ns, t0 => by
    rw [List.map_cons, List.foldlM_cons]
    change List.foldlM _ (Value.int (t0 + n)) _ = _
    rw [foldlM_add_ints ns (t0 + n)]
    simp [Int64.add_assoc]

theorem leaves_numberType :
    ∀ (t : Ty) {w : Value}, w.conforms p m t = true → Typing.numericLeaf t = some L →
      ∀ v ∈ w.leaves m t, v = .null ∨ v.numberType? = some L := by
  refine Ty.array_induction (fun c ih => ?_) (fun t ht => ?_)
  · intro w hw hL v hv
    rw [Typing.numericLeaf_array] at hL
    rcases Value.conforms_array_type hw with rfl | ⟨a, items, rfl, ha, hall⟩
    · exact .inl (List.mem_singleton.mp (by rwa [Value.leaves_null] at hv))
    · rw [Value.leaves_array ha] at hv
      obtain ⟨u, hu, hvu⟩ := List.mem_flatMap.mp hv
      exact ih (hall u (Array.mem_toList_iff.mp hu)) hL v hvu
  · intro w hw hL v hv
    by_cases hw0 : w = .null
    · subst hw0
      exact .inl (List.mem_singleton.mp (by rwa [Value.leaves_null] at hv))
    · have harray : ∀ b, w ≠ .array b := fun b hb => by
        subst hb
        obtain ⟨c, rfl⟩ := Value.eq_array_of_conforms hw
        exact ht c rfl
      rw [Value.leaves_of_not_array harray, List.mem_singleton] at hv
      subst hv
      exact .inr (Value.numberType_of_leaf hw hL hw0 harray)

theorem sumAt_int :
    ∀ (t : Ty) {w : Value}, w.conforms p m t = true → Typing.numericLeaf t = some .int →
      .null ∉ w.leaves m t →
      Value.sumAt m text (.int 0) t w =
        .ok (.int (Int64.ofInt ((w.leaves m t).map fun v => v.asInt.toInt).sum)) := by
  refine Ty.array_induction (fun c ih => ?_) (fun t ht => ?_)
  · intro w hw hL hnull
    rw [Typing.numericLeaf_array] at hL
    rcases Value.conforms_array_type hw with rfl | ⟨a, items, rfl, ha, hall⟩
    · exact absurd (by rw [Value.leaves_null]; exact List.mem_singleton_self _) hnull
    rw [Value.sumAt_array ha, Value.leaves_array ha]
    rw [Value.leaves_array ha] at hnull
    have hfold : ∀ ws : List Value, (∀ w ∈ ws, w ∈ items.toList) → ∀ t0 : Int64,
        ws.foldlM (fun acc w => do
          arithmetic text .add acc (← Value.sumAt m text (.int 0) c w) false) (Value.int t0) =
        .ok (.int (t0 + Int64.ofInt (((ws.flatMap (Value.leaves m c)).map
          fun v => v.asInt.toInt).sum))) := by
      intro ws
      induction ws with
      | nil => intro _ t0; simp; rfl
      | cons w ws ihw =>
        intro hws t0
        have hw := hws w List.mem_cons_self
        have hwnull : Value.null ∉ w.leaves m c := fun h =>
          hnull (List.mem_flatMap.mpr ⟨w, hw, h⟩)
        rw [List.foldlM_cons, ih (hall w (Array.mem_toList_iff.mp hw)) hL hwnull]
        change List.foldlM _ (Value.int (t0 + _)) ws = _
        rw [ihw fun u hu => hws u (List.mem_cons_of_mem w hu)]
        simp [Int64.add_assoc]
    rw [hfold items.toList fun _ h => h]
    simp
  · intro w hw hL hnull
    have hw0 : w ≠ .null := fun h => hnull (by subst h; rw [Value.leaves_null]; exact List.mem_singleton_self _)
    have harray : ∀ b, w ≠ .array b := fun b hb => by
      subst hb
      obtain ⟨c, rfl⟩ := Value.eq_array_of_conforms hw
      exact ht c rfl
    obtain ⟨n, rfl, -⟩ := (Value.numberType?_eq_some (Value.numberType_of_leaf hw hL hw0 harray)).resolve_right (by rintro ⟨_, _, h⟩; cases h)
    rw [Value.leaves_of_not_array harray, Value.sumAt_of_not_array harray hw0]
    simp [Value.asInt]
    rfl

end Sums

section Runs

variable {p : Typed.Program} {m : Machine}

theorem sumLeaves_run (float : Bool) :
    ∀ (fuel : Nat) {c : Ty} {a : Nat} {items : Array Value}, m.items? a = some items →
      (∀ w ∈ items, w.conforms p m c = true) → (∀ w ∈ items, ¬ w.Nested m fuel) →
      (sumLeaves p float (fuel + 1) items).run.run m =
        (Value.sumAt m (render p m) (zeroOf float) (.array c) (.array a), m) := by
  intro fuel
  induction fuel with
  | zero =>
    intro c a items ha _ hn
    obtain rfl : items = #[] := Array.eq_empty_iff_forall_not_mem.mpr fun w hw => hn w hw trivial
    rw [sumLeaves, Array.foldlM_empty, Value.sumAt_array ha]
    rfl
  | succ fuel ih =>
    intro c a items ha hc hn
    rw [sumLeaves, ← Array.foldlM_toList, Value.sumAt_array ha]
    refine Op.run_foldlM (fun w hw acc => ?_) _
    have hw' := Array.mem_toList_iff.mp hw
    split
    · rename_i b
      obtain ⟨c', rfl⟩ := Value.eq_array_of_conforms (hc _ hw')
      obtain ⟨inner, hinner, hall⟩ := Value.conforms_array_iff.mp (hc _ hw')
      rw [Op.run_bind_ok (arrayItems_array _ hinner)]
      exact Op.run_bind_pure (ih hinner hall (Value.not_nested_of_mem (hn _ hw') hinner))
        fun v => arithmeticOn_run _ _ _ _ m
    · rw [Value.sumAt_null]
      rfl
    · rename_i harray hnull
      rw [Value.sumAt_of_not_array harray hnull, pure_bind, pure_bind, arithmeticOn_run]

theorem countLeaves_run :
    ∀ (fuel : Nat) {c : Ty} {a : Nat} {items : Array Value}, m.items? a = some items →
      (∀ w ∈ items, w.conforms p m c = true) → (∀ w ∈ items, ¬ w.Nested m fuel) →
      (countLeaves (fuel + 1) (Ty.array c).depth items).run.run m =
        (if (Value.array a).nullRow m (.array c) then
          .error (.nullPointer "counting the leaves of a null row")
        else .ok ((Value.array a).leaves m (.array c)).length, m) := by
  intro fuel
  induction fuel with
  | zero =>
    intro c a items ha _ hn
    obtain rfl : items = #[] := Array.eq_empty_iff_forall_not_mem.mpr fun w hw => hn w hw trivial
    rw [Value.nullRow_array ha, Value.leaves_array ha]
    rfl
  | succ fuel ih =>
    intro c a items ha hc hn
    rw [countLeaves, ← Array.foldlM_toList, Value.nullRow_array ha, Value.leaves_array ha,
      List.length_flatMap, ← Nat.zero_add (List.sum _), ← foldlM_count]
    refine Op.run_foldlM (fun w hw t => ?_) 0
    have hw' := Array.mem_toList_iff.mp hw
    split
    · rename_i b
      obtain ⟨c', rfl⟩ := Value.eq_array_of_conforms (hc _ hw')
      obtain ⟨inner, hinner, hall⟩ := Value.conforms_array_iff.mp (hc _ hw')
      have hdepth : (Ty.array (Ty.array c')).depth - 1 = (Ty.array c').depth := rfl
      rw [Op.run_bind_ok (arrayItems_array _ hinner), hdepth]
      refine (Op.run_bind_pure (ih hinner hall (Value.not_nested_of_mem (hn _ hw') hinner))
        fun n => rfl).trans ?_
      split <;> rfl
    · rw [Value.nullRow_null, Value.leaves_null]
      by_cases hd : 0 < c.depth
      · rw [if_pos (by simp [Ty.depth]; omega), if_pos (by simpa using hd)]
        rfl
      · rw [if_neg (by simp [Ty.depth]; omega), if_neg (by simpa using hd)]
        rfl
    · rename_i harray hnull
      rw [Value.nullRow_of_not_array harray hnull, Value.leaves_of_not_array harray]
      rfl

theorem items_of_conforms {c : Ty} {a : Nat} (hX : (Value.array a).conforms p m (.array c) = true) :
    ∃ items, m.items? a = some items ∧ (∀ w ∈ items, w.conforms p m c = true) ∧
      ∀ w ∈ items, ¬ w.Nested m m.objects.size := by
  obtain ⟨items, ha, hall⟩ := Value.conforms_array_iff.mp hX
  exact ⟨items, ha, hall, Value.not_nested_of_mem (Value.conforms.not_nested hX) ha⟩

theorem property_length_run {a : Nat} {items : Array Value} (ha : m.items? a = some items)
    (T : Ty) :
    (property p (.array a) .length T).run.run m = (.ok (.int items.size.toInt64), m) := by
  unfold property
  rw [Op.run_bind_ok (arrayItems_array _ ha)]
  rfl

variable {c : Ty} {a : Nat}

theorem property_sum_run (hX : (Value.array a).conforms p m (.array c) = true) :
    (property p (.array a) .sum (.array c)).run.run m =
      ((Value.array a).sumOf p m (.array c), m) := by
  obtain ⟨items, ha, hall, hn⟩ := items_of_conforms hX
  unfold property
  rw [Op.run_bind_ok (arrayItems_array _ ha)]
  exact sumLeaves_run _ _ ha hall hn

theorem property_count_run (hX : (Value.array a).conforms p m (.array c) = true) :
    (property p (.array a) .count (.array c)).run.run m =
      (if (Value.array a).nullRow m (.array c) then
        .error (.nullPointer "counting the leaves of a null row")
      else .ok (.int ((Value.array a).leaves m (.array c)).length.toInt64), m) := by
  obtain ⟨items, ha, hall, hn⟩ := items_of_conforms hX
  unfold property
  rw [Op.run_bind_ok (arrayItems_array _ ha)]
  refine (Op.run_bind_pure (countLeaves_run _ ha hall hn) fun n => rfl).trans ?_
  split <;> rfl

theorem sumOf_spec {T L : Ty} (hX : (Value.array a).conforms p m T = true)
    (hL : Typing.numericLeaf T = some L) :
    (.null ∈ (Value.array a).leaves m T →
        (Value.array a).sumOf p m T = .error (.nullPointer "summing a null element")) ∧
      (.null ∉ (Value.array a).leaves m T →
        ∃ s, (Value.array a).sumOf p m T = .ok s ∧ s.numberType? = some L) := by
  have hz : (zeroOf (T.leaf == .float)).numberType? = some L := by
    rw [Typing.leaf_beq_float hL]
    exact zeroOf_numberType (Typing.numericLeaf_isNumber hL)
  exact sumAt_spec (render p m) hz T hX hL

theorem nullRow_eq_false_of_sumOf {T L : Ty} (hX : (Value.array a).conforms p m T = true)
    (hL : Typing.numericLeaf T = some L) {s : Value} (hs : (Value.array a).sumOf p m T = .ok s) :
    (Value.array a).nullRow m T = false := by
  by_contra hrow
  rw [(sumOf_spec hX hL).1 (Value.null_mem_leaves_of_nullRow T (by simpa using hrow))] at hs
  cases hs

theorem sumOf_eq_error_iff {T L : Ty} (hX : (Value.array a).conforms p m T = true)
    (hL : Typing.numericLeaf T = some L) (f : Fault) :
    (Value.array a).sumOf p m T = .error f ↔
      .null ∈ (Value.array a).leaves m T ∧ f = .nullPointer "summing a null element" := by
  have hspec := sumOf_spec hX hL
  refine ⟨fun hf => ?_, fun h => h.2 ▸ hspec.1 h.1⟩
  by_cases hnull : .null ∈ (Value.array a).leaves m T
  · rw [hspec.1 hnull] at hf
    cases hf
    exact ⟨hnull, rfl⟩
  · obtain ⟨s, hs, -⟩ := hspec.2 hnull
    rw [hs] at hf
    cases hf

theorem sumOf_numberType {T L : Ty} (hX : (Value.array a).conforms p m T = true)
    (hL : Typing.numericLeaf T = some L) {s : Value} (hs : (Value.array a).sumOf p m T = .ok s) :
    s.numberType? = some L := by
  have hspec := sumOf_spec hX hL
  by_cases hnull : .null ∈ (Value.array a).leaves m T
  · rw [hspec.1 hnull] at hs
    cases hs
  · obtain ⟨s', hs', hkind⟩ := hspec.2 hnull
    rw [hs'] at hs
    cases hs
    exact hkind

theorem sumOf_ints (hX : (Value.array a).conforms p m (.array c) = true)
    (hL : Typing.numericLeaf (.array c) = some .int)
    (hnull : .null ∉ (Value.array a).leaves m (.array c)) :
    ∃ ns : List Int64, (Value.array a).leaves m (.array c) = ns.map .int ∧
      (Value.array a).sumOf p m (.array c) = .ok (.int (Int64.ofInt (ns.map Int64.toInt).sum)) ∧
      ((Value.array a).leaves m (.array c)).foldlM
        (fun acc v => arithmetic (render p m) .add acc v false) (.int 0) =
        (Value.array a).sumOf p m (.array c) := by
  have hint : ∀ v ∈ (Value.array a).leaves m (.array c), Value.int v.asInt = v := by
    intro v hv
    rcases leaves_numberType (.array c) hX hL v hv with rfl | hk
    · exact absurd hv hnull
    · obtain ⟨n, rfl, -⟩ := (Value.numberType?_eq_some hk).resolve_right
        (by rintro ⟨_, _, h⟩; cases h)
      rfl
  have hns : (Value.array a).leaves m (.array c) =
      (((Value.array a).leaves m (.array c)).map Value.asInt).map .int := by
    rw [List.map_map]
    exact ((List.map_congr_left hint).trans (List.map_id _)).symm
  have hsum : (Value.array a).sumOf p m (.array c) = .ok (.int (Int64.ofInt
      ((((Value.array a).leaves m (.array c)).map Value.asInt).map Int64.toInt).sum)) := by
    rw [Value.sumOf, Typing.leaf_beq_float hL, List.map_map]
    exact sumAt_int (render p m) (.array c) hX hL hnull
  refine ⟨_, hns, hsum, ?_⟩
  rw [hsum]
  conv_lhs => rw [hns]
  rw [foldlM_add_ints, Int64.zero_add]

theorem property_avg_run {L : Ty} (hX : (Value.array a).conforms p m (.array c) = true)
    (hL : Typing.numericLeaf (.array c) = some L) :
    (property p (.array a) .avg (.array c)).run.run m =
      ((Value.array a).sumOf p m (.array c) >>= fun s =>
        if ((Value.array a).leaves m (.array c)).length.toInt64 = 0 then
          .ok (zeroOf ((Ty.array c).leaf == .float))
        else arithmetic (render p m) .div s
          (.int ((Value.array a).leaves m (.array c)).length.toInt64) false, m) := by
  obtain ⟨items, ha, hall, hn⟩ := items_of_conforms hX
  unfold property
  rw [Op.run_bind_ok (arrayItems_array _ ha)]
  rw [Op.get_bind_run]
  dsimp only
  have hsum : (sumLeaves p ((Ty.array c).leaf == .float) (m.objects.size + 1) items).run.run m =
      ((Value.array a).sumOf p m (.array c), m) := sumLeaves_run _ _ ha hall hn
  cases hs : (Value.array a).sumOf p m (.array c) with
  | error e =>
    rw [hs] at hsum
    exact Op.run_bind_error hsum
  | ok s =>
    rw [hs] at hsum
    have hcount := countLeaves_run _ ha hall hn
    rw [nullRow_eq_false_of_sumOf hX hL hs, if_neg Bool.false_ne_true] at hcount
    rw [Op.run_bind_ok hsum, Op.run_bind_ok hcount]
    dsimp only [bind, Except.bind]
    split
    · rfl
    · exact arithmeticOn_run _ _ _ _ m

theorem property_avg_faults {L : Ty} (hX : (Value.array a).conforms p m (.array c) = true)
    (hL : Typing.numericLeaf (.array c) = some L) {f : Fault}
    (hf : ((property p (.array a) .avg (.array c)).run.run m).1 = .error f) :
    f = .nullPointer "summing a null element" := by
  rw [property_avg_run hX hL] at hf
  dsimp only at hf
  cases hs : (Value.array a).sumOf p m (.array c) with
  | error e =>
    rw [hs] at hf
    cases hf
    exact ((sumOf_eq_error_iff hX hL _).mp hs).2
  | ok s =>
    rw [hs] at hf
    dsimp only [bind, Except.bind] at hf
    split at hf
    · cases hf
    · rename_i hcount
      obtain ⟨v, hv, -⟩ := arithmetic_div_int (render p m) (sumOf_numberType hX hL hs) hcount
      rw [hv] at hf
      cases hf

end Runs

/-- What the aggregates give on the array at `a` of static type `array c`, whose leaves are
numbers of kind `L` or `null`, read off the type. -/
structure AggregatesAgree (p : Typed.Program) (m : Machine) (c L : Ty) (a : Nat) : Prop where
  length : ∃ items, m.items? a = some items ∧
    (property p (.array a) .length (.array c)).run.run m = (.ok (.int items.size.toInt64), m)
  sum : (property p (.array a) .sum (.array c)).run.run m =
    ((Value.array a).sumOf p m (.array c), m)
  sum_faults : ∀ f, (Value.array a).sumOf p m (.array c) = .error f ↔
    .null ∈ (Value.array a).leaves m (.array c) ∧ f = .nullPointer "summing a null element"
  sum_kind : ∀ s, (Value.array a).sumOf p m (.array c) = .ok s → s.numberType? = some L
  sum_ints : L = .int → .null ∉ (Value.array a).leaves m (.array c) →
    ∃ ns : List Int64, (Value.array a).leaves m (.array c) = ns.map .int ∧
      (Value.array a).sumOf p m (.array c) = .ok (.int (Int64.ofInt (ns.map Int64.toInt).sum)) ∧
      ((Value.array a).leaves m (.array c)).foldlM
        (fun acc v => arithmetic (render p m) .add acc v false) (.int 0) =
        (Value.array a).sumOf p m (.array c)
  count : (property p (.array a) .count (.array c)).run.run m =
    (if (Value.array a).nullRow m (.array c) then
      .error (.nullPointer "counting the leaves of a null row")
    else .ok (.int ((Value.array a).leaves m (.array c)).length.toInt64), m)
  count_of_sum : ∀ s, (Value.array a).sumOf p m (.array c) = .ok s →
    (Value.array a).nullRow m (.array c) = false
  avg : (property p (.array a) .avg (.array c)).run.run m =
    ((Value.array a).sumOf p m (.array c) >>= fun s =>
      if ((Value.array a).leaves m (.array c)).length.toInt64 = 0 then .ok (zeroOf (L == .float))
      else arithmetic (render p m) .div s
        (.int ((Value.array a).leaves m (.array c)).length.toInt64) false, m)
  avg_faults : ∀ f, ((property p (.array a) .avg (.array c)).run.run m).1 = .error f →
    f = .nullPointer "summing a null element"

/-- The aggregates of an array that fits a type with numeric leaves agree with one another.
`length` counts the elements; `sum` adds the elements of each array from zero, an inner array
through its own sum, and faults exactly on a `null` leaf; on integers that is the sum of the
leaves wrapped to 64 bits. `count` counts the leaves and faults exactly on a `null` row, which is
a `null` leaf, so it goes through whenever `sum` does; `avg` divides the sum by the count, or
gives zero for no leaves, and never divides by zero. -/
theorem array_aggregates_agree (p : Typed.Program) (m : Machine) {c L : Ty} {a : Nat}
    (hL : Typing.numericLeaf (.array c) = some L)
    (hX : (Value.array a).conforms p m (.array c) = true) : AggregatesAgree p m c L a := by
  obtain ⟨items, ha, -, -⟩ := items_of_conforms hX
  have havg := property_avg_run hX hL
  rw [Typing.leaf_beq_float hL] at havg
  refine ⟨⟨items, ha, property_length_run ha _⟩, property_sum_run hX, sumOf_eq_error_iff hX hL,
    fun _ => sumOf_numberType hX hL, ?_, property_count_run hX,
    fun _ => nullRow_eq_false_of_sumOf hX hL, havg, fun _ => property_avg_faults hX hL⟩
  rintro rfl hnull
  exact sumOf_ints hX hL hnull

/-- The rows `[1, 2]` and `[3]` at the addresses 0 and 1, held by the array at 2. -/
def intRowsMachine : Machine :=
  ⟨#[.array #[.int 1, .int 2], .array #[.int 3], .array #[.array 0, .array 1]], #[], ""⟩

theorem array_aggregates_agree_rows :
    Typing.numericLeaf (.array (.array .int)) = some .int ∧
      (Value.array 2).conforms default intRowsMachine (.array (.array .int)) = true ∧
      AggregatesAgree default intRowsMachine (.array .int) .int 2 :=
  have hX : (Value.array 2).conforms default intRowsMachine (.array (.array .int)) = true := by
    simp [Value.conforms, intRowsMachine, Machine.items?]
  ⟨rfl, hX, array_aggregates_agree default intRowsMachine rfl hX⟩

/-- The rows `[1e16]` and `[1.0, 1.0]` at the addresses 0 and 1, held by the array at 2. -/
def floatRowsMachine : Machine :=
  ⟨#[.array #[.float 1e16], .array #[.float 1.0, .float 1.0], .array #[.array 0, .array 1]], #[],
    ""⟩

/-- `sum` on `[[1e16], [1.0, 1.0]]` adds the second row on its own first, `1.0 + 1.0 = 2.0`, and
lands on `1e16 + 2`; adding the leaves one by one from `0.0` loses each `1.0` to rounding and stays
at `1e16`. -/
theorem float_sum_is_not_the_flat_fold :
    (property default (.array 2) .sum (.array (.array .float))).run.run floatRowsMachine ≠
      (((Value.array 2).leaves floatRowsMachine (.array (.array .float))).foldlM
        (fun acc v => arithmetic (render default floatRowsMachine) .add acc v false) (.float 0.0),
        floatRowsMachine) := by
  intro h
  have hbits := congrArg (fun r : Except Fault Value × Machine =>
    (r.1.toOption.map Value.asFloat).map Float.toBits) h
  revert hbits
  decide +kernel

end Sigh
