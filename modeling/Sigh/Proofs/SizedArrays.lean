import Sigh.Proofs.Gives

namespace Sigh

namespace Machine

/-- The element at position `i` of the array value `v`. -/
def item? (m : Machine) (v : Value) (i : Nat) : Option Value :=
  match v with
  | .array a => (m.items? a).bind (·[i]?)
  | _ => none

/-- What `v[i₁]...[iₖ]` reads. -/
def readPath (m : Machine) (v : Value) : List Nat → Option Value
  | [] => some v
  | i :: p => (m.item? v i).bind fun w => m.readPath w p

/-- The machine after `v[i₁]...[iₖ] = x`: the arrays along the path are read, and the last one
takes `x` at position `iₖ`. -/
def writePath (m : Machine) (v : Value) : List Nat → Value → Machine
  | [], _ => m
  | [i], x =>
    match v with
    | .array a => m.writeItem a i x
    | _ => m
  | i :: j :: p, x =>
    match m.item? v i with
    | some w => m.writePath w (j :: p) x
    | none => m

/-- `v` is nested arrays of lengths `ds`, outermost first. -/
def Shaped (m : Machine) : List Nat → Value → Prop
  | [], _ => True
  | n :: ds, v => ∃ a items, v = .array a ∧ m.items? a = some items ∧ items.size = n ∧
      ∀ w ∈ items, m.Shaped ds w

/-- The arrays of the nest `k` levels deep from `v`: those under each element, then the array
itself. -/
def arraysOf (m : Machine) : Nat → Value → List Nat
  | 0, _ => []
  | k + 1, .array a => ((m.items? a).getD #[]).toList.flatMap (m.arraysOf k) ++ [a]
  | _ + 1, _ => []

end Machine

/-- A path of positions inside nested arrays of lengths `ds`, one position for each level. -/
def InBounds (ds q : List Nat) : Prop := List.Forall₂ (· < ·) q ds

/-- The number of arrays in nested arrays of lengths `ds`. -/
def arrayCount : List Nat → Nat
  | [] => 0
  | n :: ds => n * arrayCount ds + 1

/-- The value that the writes `ws`, each a path and a value, leave at path `q` when it held `d`
before them: the value of the last write to `q`, or `d` if none wrote there. -/
def lastWritten (ws : List (List Nat × Value)) (q : List Nat) (d : Value) : Value :=
  ws.foldl (fun r w => if w.1 = q then w.2 else r) d

namespace Machine

variable {m m' : Machine}

theorem items?_writeItem (m : Machine) (a i : Nat) (x : Value) (b : Nat) :
    (m.writeItem a i x).items? b =
      if a = b then (m.items? a).map (·.setIfInBounds i x) else m.items? b := by
  unfold writeItem items?
  rw [Array.getElem?_modify]
  by_cases h : a = b
  · subst h
    cases m.objects[a]? with
    | none => simp
    | some o => cases o <;> simp
  · simp [h]

theorem item?_array {a : Nat} {items : Array Value} (h : m.items? a = some items) (i : Nat) :
    m.item? (.array a) i = items[i]? := by
  simp [item?, h]

@[simp] theorem readPath_nil (v : Value) : m.readPath v [] = some v := rfl

theorem readPath_cons (v : Value) (i : Nat) (p : List Nat) :
    m.readPath v (i :: p) = (m.item? v i).bind fun w => m.readPath w p := rfl

@[simp] theorem arraysOf_zero (v : Value) : m.arraysOf 0 v = [] := rfl

theorem arraysOf_array {k a : Nat} {items : Array Value} (h : m.items? a = some items) :
    m.arraysOf (k + 1) (.array a) = items.toList.flatMap (m.arraysOf k) ++ [a] := by
  simp [arraysOf, h]

theorem arraysOf_one {a : Nat} {items : Array Value} (h : m.items? a = some items) :
    m.arraysOf 1 (.array a) = [a] := by
  rw [arraysOf_array h, List.flatMap_eq_nil_iff.mpr fun _ _ => arraysOf_zero _, List.nil_append]

theorem mem_arraysOf_array {k a : Nat} {items : Array Value} (h : m.items? a = some items)
    {w : Value} (hw : w ∈ items) : m.arraysOf k w ⊆ m.arraysOf (k + 1) (.array a) := by
  rw [arraysOf_array h]
  intro b hb
  exact List.mem_append_left _ (List.mem_flatMap.mpr ⟨w, Array.mem_toList_iff.mpr hw, hb⟩)

theorem Shaped.items?_isSome : ∀ {ds : List Nat} {v : Value}, m.Shaped ds v →
    ∀ b ∈ m.arraysOf ds.length v, (m.items? b).isSome
  | [], _, _, b, hb => by simp at hb
  | n :: ds, v, ⟨a, items, hv, ha, _, hall⟩, b, hb => by
    subst hv
    rw [List.length_cons, arraysOf_array ha] at hb
    rcases List.mem_append.mp hb with hb | hb
    · obtain ⟨w, hw, hb⟩ := List.mem_flatMap.mp hb
      exact Shaped.items?_isSome (hall w (Array.mem_toList_iff.mp hw)) b hb
    · rw [List.mem_singleton.mp hb, ha]
      rfl

theorem Shaped.congr : ∀ {ds : List Nat} {v : Value}, m.Shaped ds v →
    (∀ b ∈ m.arraysOf ds.length v, m'.items? b = m.items? b) →
    m'.Shaped ds v ∧ m'.arraysOf ds.length v = m.arraysOf ds.length v ∧
      ∀ q, InBounds ds q → m'.readPath v q = m.readPath v q
  | [], v, _, _ => ⟨trivial, rfl, fun q hq => by cases hq; rfl⟩
  | n :: ds, v, ⟨a, items, hv, ha, hn, hall⟩, hsame => by
    subst hv
    have ha' : m'.items? a = some items := by
      rw [hsame a (by simp [arraysOf_array ha]), ha]
    have hchild : ∀ w ∈ items, m'.Shaped ds w ∧ m'.arraysOf ds.length w = m.arraysOf ds.length w ∧
        ∀ q, InBounds ds q → m'.readPath w q = m.readPath w q := fun w hw =>
      Shaped.congr (hall w hw) fun b hb => hsame b (mem_arraysOf_array ha hw hb)
    refine ⟨⟨a, items, rfl, ha', hn, fun w hw => (hchild w hw).1⟩, ?_, ?_⟩
    · rw [List.length_cons, arraysOf_array ha, arraysOf_array ha']
      congr 1
      exact List.flatMap_congr fun w hw => (hchild w (Array.mem_toList_iff.mp hw)).2.1
    · rintro _ (_ | ⟨hi, hq⟩)
      rename_i i q
      rw [readPath_cons, readPath_cons, item?_array ha, item?_array ha']
      cases hw : items[i]? with
      | none => rfl
      | some w => exact (hchild w (Array.mem_of_getElem? hw)).2.2 q hq

theorem Shaped.grows {ds : List Nat} {v : Value} (h : m.Shaped ds v) (hg : m.Grows m') :
    m'.Shaped ds v ∧ m'.arraysOf ds.length v = m.arraysOf ds.length v ∧
      ∀ q, InBounds ds q → m'.readPath v q = m.readPath v q :=
  h.congr fun b hb => by
    obtain ⟨items, hitems⟩ := Option.isSome_iff_exists.mp (h.items?_isSome b hb)
    rw [hitems, Grows.items hg hitems]

theorem not_mem_of_nodup_flatMap {α β : Type} {l : List α} {f : α → List β}
    (h : (l.flatMap f).Nodup) {i j : Nat} (hi : i < l.length) (hj : j < l.length) (hij : i ≠ j)
    {b : β} (hb : b ∈ f l[i]) : b ∉ f l[j] := by
  obtain ⟨-, hpair⟩ := List.nodup_flatMap.mp h
  rcases Nat.lt_or_gt_of_ne hij with hlt | hlt
  · exact fun hb' => List.pairwise_iff_getElem.mp hpair i j hi hj hlt hb hb'
  · exact fun hb' => List.pairwise_iff_getElem.mp hpair j i hj hi hlt hb' hb

section Writes

variable {x : Value}

theorem writePath_single (a i : Nat) : m.writePath (.array a) [i] x = m.writeItem a i x := rfl

theorem writePath_cons_cons {a : Nat} {items : Array Value} (h : m.items? a = some items) {i : Nat}
    (hi : i < items.size) (j : Nat) (p : List Nat) :
    m.writePath (.array a) (i :: j :: p) x = m.writePath items[i] (j :: p) x := by
  rw [writePath, item?_array h, Array.getElem?_eq_getElem hi]

theorem Shaped.writePath_items? : ∀ {ds : List Nat} {v : Value} {p : List Nat}, m.Shaped ds v →
    InBounds ds p → ∀ b ∉ m.arraysOf ds.length v, (m.writePath v p x).items? b = m.items? b
  | [], _, [], _, _, _, _ => rfl
  | [_], _, [i], ⟨a, items, hv, ha, _, _⟩, _, b, hb => by
    subst hv
    have hab : a ≠ b := by
      rintro rfl
      exact hb (by rw [List.length_singleton, arraysOf_one ha]; simp)
    simp [writePath_single, items?_writeItem, hab]
  | _ :: _ :: _, _, i :: j :: p, ⟨a, items, hv, ha, hn, hall⟩, hp, b, hb => by
    subst hv
    obtain ⟨hi, hp⟩ := List.forall₂_cons.mp hp
    have hi' : i < items.size := hn ▸ hi
    rw [writePath_cons_cons ha hi']
    exact Shaped.writePath_items? (hall _ (Array.getElem_mem hi')) hp b
      fun h => hb (mem_arraysOf_array ha (Array.getElem_mem hi') h)
  | [], _, _ :: _, _, hp, _, _ | _ :: _, _, [], _, hp, _, _ => by cases hp
  | [_], _, _ :: _ :: _, _, hp, _, _ | _ :: _ :: _, _, [_], _, hp, _, _ => by
    simpa using hp.length_eq

theorem Shaped.writePath : ∀ {ds : List Nat} {v : Value} {p : List Nat}, m.Shaped ds v →
    (m.arraysOf ds.length v).Nodup → InBounds ds p → p ≠ [] →
    (m.writePath v p x).Shaped ds v ∧
      (m.writePath v p x).arraysOf ds.length v = m.arraysOf ds.length v ∧
      ∀ q, InBounds ds q → (m.writePath v p x).readPath v q =
        if q = p then some x else m.readPath v q
  | [n], _, [i], ⟨a, items, hv, ha, hn, _⟩, _, hp, _ => by
    subst hv
    obtain ⟨hi, -⟩ := List.forall₂_cons.mp hp
    have ha' : (m.writeItem a i x).items? a = some (items.setIfInBounds i x) := by
      simp [items?_writeItem, ha]
    rw [writePath_single]
    refine ⟨⟨a, _, rfl, ha', by simp [hn], fun _ _ => trivial⟩,
      by rw [List.length_singleton, arraysOf_one ha, arraysOf_one ha'], fun q hq => ?_⟩
    obtain ⟨j, rfl, hj⟩ : ∃ j, q = [j] ∧ j < n := by
      cases hq with
      | cons hj hnil => cases hnil; exact ⟨_, rfl, hj⟩
    simp only [readPath_cons, item?_array ha, item?_array ha', readPath_nil,
      Array.getElem?_setIfInBounds, List.cons.injEq, and_true]
    by_cases hij : i = j
    · subst hij
      simp [hn, hi]
    · simp [hij, Ne.symm hij]
  | n :: d :: ds, _, i :: j :: p, ⟨a, items, hv, ha, hn, hall⟩, hnd, hp, _ => by
    subst hv
    obtain ⟨hi, hp⟩ := List.forall₂_cons.mp hp
    have hi' : i < items.size := hn ▸ hi
    have hw := Array.getElem_mem hi'
    rw [List.length_cons, arraysOf_array ha] at hnd
    obtain ⟨hflat, -, hlast⟩ := List.nodup_append.mp hnd
    have ih := Shaped.writePath (hall _ hw)
      ((List.nodup_flatMap.mp hflat).1 _ (Array.mem_toList_iff.mpr hw)) hp (List.cons_ne_nil _ _)
    rw [writePath_cons_cons ha hi']
    have hinside := Shaped.writePath_items? (x := x) (hall _ hw) hp
    have ha' : (m.writePath items[i] (j :: p) x).items? a = some items := by
      rw [hinside a fun h => hlast a (List.mem_flatMap.mpr
        ⟨_, Array.mem_toList_iff.mpr hw, h⟩) a (List.mem_singleton_self a) rfl, ha]
    have hother : ∀ k (hk : k < items.size), k ≠ i →
        (m.writePath items[i] (j :: p) x).Shaped (d :: ds) items[k] ∧
        (m.writePath items[i] (j :: p) x).arraysOf (d :: ds).length items[k] =
          m.arraysOf (d :: ds).length items[k] ∧
        ∀ q, InBounds (d :: ds) q →
          (m.writePath items[i] (j :: p) x).readPath items[k] q = m.readPath items[k] q :=
      fun k hk hki => (hall _ (Array.getElem_mem hk)).congr fun b hb => hinside b
        (not_mem_of_nodup_flatMap hflat (by simpa using hk) (by simpa using hi') hki
          (by simpa using hb))
    have helem : ∀ k (hk : k < items.size),
        (m.writePath items[i] (j :: p) x).Shaped (d :: ds) items[k] ∧
        (m.writePath items[i] (j :: p) x).arraysOf (d :: ds).length items[k] =
          m.arraysOf (d :: ds).length items[k] := fun k hk => by
      by_cases hki : k = i
      · subst hki
        exact ⟨ih.1, ih.2.1⟩
      · exact ⟨(hother k hk hki).1, (hother k hk hki).2.1⟩
    refine ⟨⟨a, items, rfl, ha', hn, fun u hu => ?_⟩, ?_, fun q hq => ?_⟩
    · obtain ⟨k, hk, rfl⟩ := Array.mem_iff_getElem.mp hu
      exact (helem k hk).1
    · rw [List.length_cons, arraysOf_array ha, arraysOf_array ha']
      congr 1
      refine List.flatMap_congr fun u hu => ?_
      obtain ⟨k, hk, rfl⟩ := Array.mem_iff_getElem.mp (Array.mem_toList_iff.mp hu)
      exact (helem k hk).2
    · obtain ⟨k, q, rfl, hk, hq⟩ : ∃ k q', q = k :: q' ∧ k < n ∧ InBounds (d :: ds) q' := by
        cases hq with
        | cons hk hq => exact ⟨_, _, rfl, hk, hq⟩
      have hk' : k < items.size := hn ▸ hk
      rw [readPath_cons, readPath_cons, item?_array ha, item?_array ha',
        Array.getElem?_eq_getElem hk', Option.bind_some, Option.bind_some]
      by_cases hki : k = i
      · subst hki
        rw [ih.2.2 q hq]
        simp
      · rw [(hother k hk' hki).2.2 q hq]
        simp [hki]
  | [], _, _, _, _, hp, hne => by cases hp; exact absurd rfl hne
  | _ :: _, _, [], _, _, _, hne => absurd rfl hne
  | [_], _, _ :: _ :: _, _, _, hp, _ | _ :: _ :: _, _, [_], _, _, hp, _ => by
    simpa using hp.length_eq

theorem Shaped.writePaths {ds : List Nat} : ∀ (ws : List (List Nat × Value)) {m : Machine}
    {v : Value}, m.Shaped ds v → (m.arraysOf ds.length v).Nodup →
    (∀ w ∈ ws, InBounds ds w.1 ∧ w.1 ≠ []) → ∀ q, InBounds ds q → ∀ d, m.readPath v q = some d →
    (ws.foldl (fun m w => m.writePath v w.1 w.2) m).readPath v q = some (lastWritten ws q d)
  | [], _, _, _, _, _, _, _, _, hd => hd
  | w :: ws, m, v, hs, hnd, hws, q, hq, d, hd => by
    obtain ⟨hsw, harrays, hread⟩ := hs.writePath (x := w.2) hnd (hws w List.mem_cons_self).1
      (hws w List.mem_cons_self).2
    have hd' : (m.writePath v w.1 w.2).readPath v q = some (if w.1 = q then w.2 else d) := by
      rw [hread q hq, hd]
      by_cases h : q = w.1
      · simp [h]
      · simp [h, Ne.symm h]
    exact Shaped.writePaths ws hsw (harrays ▸ hnd) (fun w' hw' => hws w' (List.mem_cons_of_mem _ hw'))
      q hq _ hd'

end Writes

end Machine

/-- What `allocate T ds` leaves on `m` when it starts at address `lo`: `v` is nested arrays of
lengths `ds` whose arrays are the objects from `lo` on, each after those under it, with the
default value of `T` at every leaf. -/
structure Allocated (m : Machine) (T : Ty) (ds : List Nat) (lo : Nat) (v : Value) : Prop where
  shaped : m.Shaped ds v
  arrays : m.arraysOf ds.length v = List.range' lo (arrayCount ds)
  leaves : ∀ q, InBounds ds q → m.readPath v q = some (Value.default T)

theorem Allocated.grows {m m' : Machine} {T : Ty} {ds : List Nat} {lo : Nat} {v : Value}
    (h : Allocated m T ds lo v) (hg : m.Grows m') : Allocated m' T ds lo v :=
  have hkeep := h.shaped.grows hg
  ⟨hkeep.1, hkeep.2.1.trans h.arrays, fun q hq => (hkeep.2.2 q hq).trans (h.leaves q hq)⟩

/-- `allocate T ds` goes through from every machine, adding `arrayCount ds` objects. -/
def AllocatesFrom (T : Ty) (ds : List Nat) : Prop :=
  ∀ m : Machine, ∃ v m', (allocate T ds).run.run m = (.ok v, m') ∧ m.Grows m' ∧
    m'.objects.size = m.objects.size + arrayCount ds ∧ Allocated m' T ds m.objects.size v

theorem mapM_allocate {T : Ty} {ds : List Nat} (h : AllocatesFrom T ds) :
    ∀ (xs : List Nat) (m : Machine), ∃ vs m', (xs.mapM fun _ => allocate T ds).run.run m =
      (.ok vs, m') ∧ m.Grows m' ∧ m'.objects.size = m.objects.size + xs.length * arrayCount ds ∧
      vs.length = xs.length ∧
      (∀ w ∈ vs, m'.Shaped ds w ∧ ∀ q, InBounds ds q → m'.readPath w q = some (Value.default T)) ∧
      vs.flatMap (m'.arraysOf ds.length) = List.range' m.objects.size (xs.length * arrayCount ds)
  | [], m => ⟨[], m, rfl, .refl m, by simp, rfl, nofun, by simp⟩
  | _ :: xs, m => by
    obtain ⟨v, m₁, hrun₁, hg₁, hsize₁, hv⟩ := h m
    obtain ⟨vs, m₂, hrun₂, hg₂, hsize₂, hlen, hvs, hflat⟩ := mapM_allocate h xs m₁
    have hv₂ := hv.grows hg₂
    refine ⟨v :: vs, m₂, ?_, hg₁.trans hg₂, ?_, by simp [hlen], ?_, ?_⟩
    · rw [List.mapM_cons, Op.run_bind_ok hrun₁, Op.run_bind_ok hrun₂]
      rfl
    · rw [hsize₂, hsize₁, List.length_cons, Nat.succ_mul]
      omega
    · intro w hw
      rcases List.mem_cons.mp hw with rfl | hw
      · exact ⟨hv₂.shaped, hv₂.leaves⟩
      · exact hvs w hw
    · rw [List.flatMap_cons, hv₂.arrays, hflat, hsize₁, List.range'_append_1, List.length_cons,
        Nat.succ_mul, Nat.add_comm (xs.length * _)]

theorem allocate_lays_out (T : Ty) : ∀ ds : List Nat, AllocatesFrom T ds
  | [], m => ⟨_, m, rfl, .refl m, rfl, ⟨trivial, rfl, fun q hq => by cases hq; rfl⟩⟩
  | n :: ds, m => by
    obtain ⟨vs, m₁, hrun, hg, hsize, hlen, hvs, hflat⟩ :=
      mapM_allocate (allocate_lays_out T ds) (List.range n) m
    rw [List.length_range] at hsize hlen hflat
    have hg' := Machine.grows_alloc m₁ (.array vs.toArray)
    have hitems := Machine.items?_alloc m₁ vs.toArray
    refine ⟨.array m₁.objects.size, (m₁.alloc (.array vs.toArray)).2, ?_, hg.trans hg', ?_,
      ⟨⟨_, _, rfl, hitems, by simp [hlen], fun w hw => (hvs w (by simpa using hw)).1.grows hg' |>.1⟩,
        ?_, ?_⟩⟩
    · rw [allocate, Op.run_bind_ok hrun]
      rfl
    · simp [Machine.alloc_objects, hsize, arrayCount, Nat.add_assoc]
    · rw [List.length_cons, Machine.arraysOf_array hitems, List.toList_toArray,
        List.flatMap_congr fun w hw => ((hvs w hw).1.grows hg').2.1, hflat, hsize,
        arrayCount, List.range'_1_concat]
    · rintro _ (_ | ⟨hj, hq⟩)
      rename_i j q
      have hj' : j < vs.length := hlen ▸ hj
      rw [Machine.readPath_cons, Machine.item?_array hitems, List.getElem?_toArray,
        List.getElem?_eq_getElem hj', Option.bind_some]
      obtain ⟨hshaped, hleaves⟩ := hvs _ (List.getElem_mem hj')
      rw [(hshaped.grows hg').2.2 q hq, hleaves q hq]

theorem InBounds.ne_nil {n : Nat} {ds q : List Nat} (h : InBounds (n :: ds) q) : q ≠ [] := by
  rintro rfl
  cases h

theorem Allocated.arrays_nodup {m : Machine} {T : Ty} {ds : List Nat} {lo : Nat} {v : Value}
    (h : Allocated m T ds lo v) : (m.arraysOf ds.length v).Nodup :=
  h.arrays ▸ List.nodup_range'

end Sigh
