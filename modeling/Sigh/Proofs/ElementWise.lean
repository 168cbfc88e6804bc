import Sigh.Proofs.Gives

namespace Sigh

theorem Value.eq_array_or (v : Value) : (∃ a, v = .array a) ∨ ∀ a, v ≠ .array a := by
  cases v with
  | array a => exact .inl ⟨a, rfl⟩
  | _ => exact .inr fun _ h => by cases h

/-- Whether an array address of `v` is below `n`. -/
def Value.within (n : Nat) : Value → Bool
  | .array a => decide (a < n)
  | _ => true

/-- Every element of every array of the heap is an array of the heap or no array at all. -/
def Machine.closed (m : Machine) : Bool :=
  m.objects.all fun o =>
    match o with
    | .array items => items.all (·.within m.objects.size)
    | _ => true

theorem Machine.within_of_closed {m : Machine} (hm : m.closed = true) {a : Nat}
    {items : Array Value} (hitems : m.items? a = some items) {v : Value} (hv : v ∈ items) :
    v.within m.objects.size = true := by
  unfold items? at hitems
  split at hitems
  · rename_i heq
    cases hitems
    have ho := Array.mem_of_getElem? heq
    simp only [closed, Array.all_eq_true_iff_forall_mem] at hm
    have hall := hm _ ho
    simp only [Array.all_eq_true_iff_forall_mem] at hall
    exact hall v hv
  · cases hitems

theorem Machine.Grows.items_eq {m m' : Machine} (hg : m.Grows m') {a : Nat}
    (ha : a < m.objects.size) : m'.items? a = m.items? a := by
  obtain ⟨o, ho⟩ : ∃ o, m.objects[a]? = some o := ⟨_, Array.getElem?_eq_getElem ha⟩
  unfold Machine.items?
  rw [hg a o ho, ho]

theorem arithmetic_ok_of_text {text : Value → String} (text' : Value → String) {op : BinOp}
    {l r v : Value} {strict : Bool} (h : arithmetic text op l r strict = .ok v) :
    ∃ v', arithmetic text' op l r strict = .ok v' := by
  unfold arithmetic at h ⊢
  split
  · rename_i a b
    exact ⟨v, h⟩
  · split at h
    · rename_i hno
      exact (hno _ _ rfl rfl).elim
    · split_ifs at h ⊢
      · exact ⟨v, h⟩
      · exact ⟨_, rfl⟩

theorem arrayItems_array_none {m : Machine} {a : Nat} (context : String)
    (h : m.items? a = none) :
    (arrayItems (.array a) context).run.run m = (.error (.internal "unknown array"), m) := by
  rw [arrayItems, Op.get_bind_run, h]
  rfl

namespace Value

section Shapes

variable (p : Typed.Program) (op : BinOp) (m₀ : Machine)

mutual
/-- `l` and `r` have one shape on `m₀`, with no `null` at any position: both are arrays whose
elements have one shape position by position, or both are leaves other than `null` on which strict
arithmetic goes through. -/
inductive SameShape : Value → Value → Prop
  | leaf {l r : Value} : (∀ a, l ≠ .array a) → (∀ a, r ≠ .array a) → l ≠ .null → r ≠ .null →
      (∃ v, arithmetic (render p m₀) op l r true = .ok v) → SameShape l r
  | array {a b : Nat} {ls rs : Array Value} : m₀.items? a = some ls → m₀.items? b = some rs →
      SameShapes ls.toList rs.toList → SameShape (.array a) (.array b)
/-- Lists of values of one shape, position by position. -/
inductive SameShapes : List Value → List Value → Prop
  | nil : SameShapes [] []
  | cons {l r : Value} {ls rs : List Value} : SameShape l r → SameShapes ls rs →
      SameShapes (l :: ls) (r :: rs)
end

mutual
/-- `v` on `m'` is what element-wise `op` gives on `l` and `r` of `m₀`: on two leaves, what strict
arithmetic gives, with the texts of values read on a heap between `m₀` and `m'`; on two arrays, an
array of the results for their elements. The arrays of `v` are the objects `lo` to `hi - 1` of
`m'`, each array after those under it. -/
inductive Pointwise (m' : Machine) : Value → Value → Value → Nat → Nat → Prop
  | leaf {l r v : Value} {k : Nat} : (∀ a, l ≠ .array a) → (∀ a, r ≠ .array a) → l ≠ .null →
      r ≠ .null →
      (∃ mk, m₀.Grows mk ∧ mk.Grows m' ∧ arithmetic (render p mk) op l r true = .ok v) →
      Pointwise m' l r v k k
  | array {a b lo hi : Nat} {ls rs vs : Array Value} : m₀.items? a = some ls →
      m₀.items? b = some rs → m'.items? hi = some vs →
      Pointwises m' ls.toList rs.toList vs.toList lo hi →
      Pointwise m' (.array a) (.array b) (.array hi) lo (hi + 1)
/-- Lists of results of element-wise `op`, position by position, whose arrays are the objects `lo`
to `hi - 1` of `m'` in order. -/
inductive Pointwises (m' : Machine) : List Value → List Value → List Value → Nat → Nat → Prop
  | nil {k : Nat} : Pointwises m' [] [] [] k k
  | cons {l r v : Value} {ls rs vs : List Value} {lo mid hi : Nat} :
      Pointwise m' l r v lo mid → Pointwises m' ls rs vs mid hi →
      Pointwises m' (l :: ls) (r :: rs) (v :: vs) lo hi
end

end Shapes

variable {p : Typed.Program} {op : BinOp} {m₀ : Machine}

theorem SameShape.ne_null_left {l r : Value} (h : SameShape p op m₀ l r) : l ≠ .null := by
  cases h with
  | leaf _ _ hl _ _ => exact hl
  | array => exact nofun

theorem SameShape.ne_null_right {l r : Value} (h : SameShape p op m₀ l r) : r ≠ .null := by
  cases h with
  | leaf _ _ _ hr _ => exact hr
  | array => exact nofun

theorem SameShape.array_left {a : Nat} {r : Value} (h : SameShape p op m₀ (.array a) r) :
    ∃ b, r = .array b := by
  cases h with
  | leaf hl => exact absurd rfl (hl a)
  | array => exact ⟨_, rfl⟩

theorem SameShape.array_right {b : Nat} {l : Value} (h : SameShape p op m₀ l (.array b)) :
    ∃ a, l = .array a := by
  cases h with
  | leaf _ hr => exact absurd rfl (hr b)
  | array => exact ⟨_, rfl⟩

theorem SameShape.items {a b : Nat} (h : SameShape p op m₀ (.array a) (.array b)) :
    ∃ ls rs, m₀.items? a = some ls ∧ m₀.items? b = some rs ∧
      SameShapes p op m₀ ls.toList rs.toList := by
  cases h with
  | leaf hl => exact absurd rfl (hl a)
  | array ha hb hs => exact ⟨_, _, ha, hb, hs⟩

theorem SameShapes.length_eq {ls rs : List Value} :
    SameShapes p op m₀ ls rs → ls.length = rs.length
  | .nil => rfl
  | .cons _ hs => by simp [SameShapes.length_eq hs]

theorem SameShapes.of_mem_zip {ls rs : List Value} {l r : Value} :
    SameShapes p op m₀ ls rs → (l, r) ∈ ls.zip rs → SameShape p op m₀ l r
  | .nil, hmem => by simp at hmem
  | .cons hhead hs, hmem => by
    rcases List.mem_cons.mp hmem with heq | hmem
    · cases heq
      exact hhead
    · exact SameShapes.of_mem_zip hs hmem

mutual
theorem Pointwise.grows {m' m'' : Machine} {l r v : Value} {lo hi : Nat} :
    Pointwise p op m₀ m' l r v lo hi → m'.Grows m'' → Pointwise p op m₀ m'' l r v lo hi
  | .leaf hl hr hln hrn ⟨mk, h₀, hk, hv⟩, hg => .leaf hl hr hln hrn ⟨mk, h₀, hk.trans hg, hv⟩
  | .array ha hb hv hs, hg => .array ha hb (hg.items hv) (Pointwises.grows hs hg)
theorem Pointwises.grows {m' m'' : Machine} {ls rs vs : List Value} {lo hi : Nat} :
    Pointwises p op m₀ m' ls rs vs lo hi → m'.Grows m'' → Pointwises p op m₀ m'' ls rs vs lo hi
  | .nil, _ => .nil
  | .cons h hs, hg => .cons (Pointwise.grows h hg) (Pointwises.grows hs hg)
end

mutual
theorem Pointwise.sameShape {m' : Machine} {l r v : Value} {lo hi : Nat} :
    Pointwise p op m₀ m' l r v lo hi → SameShape p op m₀ l r
  | .leaf hl hr hln hrn ⟨_, _, _, hv⟩ => .leaf hl hr hln hrn (arithmetic_ok_of_text _ hv)
  | .array ha hb _ hs => .array ha hb (Pointwises.sameShapes hs)
theorem Pointwises.sameShapes {m' : Machine} {ls rs vs : List Value} {lo hi : Nat} :
    Pointwises p op m₀ m' ls rs vs lo hi → SameShapes p op m₀ ls rs
  | .nil => .nil
  | .cons h hs => .cons (Pointwise.sameShape h) (Pointwises.sameShapes hs)
end

mutual
theorem SameShape.bounded {l r : Value} : SameShape p op m₀ l r → ∃ d, ¬ l.Nested m₀ d
  | .leaf hl _ _ _ _ => ⟨1, fun ⟨a, _, h, _⟩ => hl a h⟩
  | .array (a := a) ha _ hs => by
    obtain ⟨d, hd⟩ := SameShapes.bounded hs
    refine ⟨d + 1, fun ⟨a', items, heq, hitems, w, hw, hn⟩ => ?_⟩
    cases heq
    rw [ha] at hitems
    cases hitems
    exact hd w (Array.mem_toList_iff.mpr hw) hn
theorem SameShapes.bounded {ls rs : List Value} :
    SameShapes p op m₀ ls rs → ∃ d, ∀ l ∈ ls, ¬ l.Nested m₀ d
  | .nil => ⟨0, nofun⟩
  | .cons h hs => by
    obtain ⟨d₁, hd₁⟩ := SameShape.bounded h
    obtain ⟨d₂, hd₂⟩ := SameShapes.bounded hs
    refine ⟨max d₁ d₂, fun l hl hn => ?_⟩
    rcases List.mem_cons.mp hl with rfl | hl
    · exact hd₁ (hn.mono (Nat.le_max_left d₁ d₂))
    · exact hd₂ l hl (hn.mono (Nat.le_max_right d₁ d₂))
end

theorem SameShape.not_nested {l r : Value} (h : SameShape p op m₀ l r) :
    ¬ l.Nested m₀ (m₀.objects.size + 1) := by
  obtain ⟨d, hd⟩ := h.bounded
  exact fun hn => hd (hn.pump d)

end Value

theorem newArray_allocates {m : Machine} {bad : Fault → Prop} (items : Array Value) :
    Op.Gives (newArray items) m
      (fun v m' => v = .array m.objects.size ∧ m'.items? m.objects.size = some items ∧
        m'.objects.size = m.objects.size + 1) bad :=
  Op.Gives.of_run rfl (Machine.grows_alloc m _)
    ⟨rfl, Machine.items?_alloc m items, by simp⟩

theorem arrayItems_none_gives {m : Machine} {a : Nat} {bad : Fault → Prop} (context : String)
    (h : m.items? a = none) (hbad : bad (.internal "unknown array")) :
    Op.Gives (arrayItems (.array a) context) m (fun _ _ => False) bad :=
  Op.Gives.of_run_error (arrayItems_array_none context h) hbad

open Op.Gives Value

section Run

variable {p : Typed.Program} {op : BinOp} {m₀ : Machine}

theorem mapM_pointwises {fuel : Nat}
    (ih : ∀ {u w : Value} {m : Machine}, u.within m₀.objects.size = true →
      w.within m₀.objects.size = true → m₀.Grows m →
      Op.Gives (elementWiseWith p op fuel u w) m
        (fun v m' => Pointwise p op m₀ m' u w v m.objects.size m'.objects.size)
        (fun _ => ¬ SameShape p op m₀ u w ∨ u.Nested m₀ fuel)) :
    ∀ (us ws : List Value) {m : Machine}, us.length = ws.length →
      (∀ u ∈ us, u.within m₀.objects.size = true) → (∀ w ∈ ws, w.within m₀.objects.size = true) →
      m₀.Grows m →
      Op.Gives ((us.zip ws).mapM fun x => match x with | (a, b) => elementWiseWith p op fuel a b) m
        (fun vs m' => Pointwises p op m₀ m' us ws vs m.objects.size m'.objects.size)
        (fun _ => ¬ SameShapes p op m₀ us ws ∨ ∃ u ∈ us, u.Nested m₀ fuel)
  | [], [], m, _, _, _, _ => .pure .nil
  | u :: us, w :: ws, m, hlen, hus, hws, hg => by
    rw [List.zip_cons_cons, List.mapM_cons]
    have hhead : Op.Gives (elementWiseWith p op fuel u w) m
        (fun v m' => Pointwise p op m₀ m' u w v m.objects.size m'.objects.size)
        (fun _ => ¬ SameShapes p op m₀ (u :: us) (w :: ws) ∨ ∃ u' ∈ u :: us, u'.Nested m₀ fuel) := by
      refine (ih (hus u List.mem_cons_self) (hws w List.mem_cons_self) hg).mono
        (fun _ _ _ h => h) ?_
      rintro f (hshape | hnested)
      · exact .inl fun h => by cases h with | cons hhead _ => exact hshape hhead
      · exact .inr ⟨u, List.mem_cons_self, hnested⟩
    refine hhead.bind fun v m₁ hg₁ hv => ?_
    have htail : Op.Gives ((us.zip ws).mapM fun x => match x with
          | (a, b) => elementWiseWith p op fuel a b) m₁
        (fun vs m' => Pointwises p op m₀ m' us ws vs m₁.objects.size m'.objects.size)
        (fun _ => ¬ SameShapes p op m₀ (u :: us) (w :: ws) ∨ ∃ u' ∈ u :: us, u'.Nested m₀ fuel) := by
      refine (mapM_pointwises ih us ws (by simpa using hlen)
        (fun u' hu' => hus u' (List.mem_cons_of_mem _ hu'))
        (fun w' hw' => hws w' (List.mem_cons_of_mem _ hw')) (hg.trans hg₁)).mono
        (fun _ _ _ h => h) ?_
      rintro f (hshape | ⟨u', hu', hnested⟩)
      · exact .inl fun h => by cases h with | cons _ htail => exact hshape htail
      · exact .inr ⟨u', List.mem_cons_of_mem _ hu', hnested⟩
    exact htail.bind fun vs m₂ hg₂ hvs => .pure (.cons (hv.grows hg₂) hvs)
  | [], _ :: _, _, hlen, _, _, _ | _ :: _, [], _, hlen, _, _, _ => by simp at hlen

theorem elementWiseWith_arrays (hm : m₀.closed = true) {fuel : Nat}
    (ih : ∀ {u w : Value} {m : Machine}, u.within m₀.objects.size = true →
      w.within m₀.objects.size = true → m₀.Grows m →
      Op.Gives (elementWiseWith p op fuel u w) m
        (fun v m' => Pointwise p op m₀ m' u w v m.objects.size m'.objects.size)
        (fun _ => ¬ SameShape p op m₀ u w ∨ u.Nested m₀ fuel))
    {a b : Nat} {m : Machine} (ha : a < m₀.objects.size) (hb : b < m₀.objects.size)
    (hg : m₀.Grows m) :
    Op.Gives (elementWiseWith p op (fuel + 1) (.array a) (.array b)) m
      (fun v m' => Pointwise p op m₀ m' (.array a) (.array b) v m.objects.size m'.objects.size)
      (fun _ => ¬ SameShape p op m₀ (.array a) (.array b) ∨ (Value.array a).Nested m₀ (fuel + 1)) := by
  rw [elementWiseWith.eq_2]
  cases hls : m₀.items? a with
  | none =>
    refine (arrayItems_none_gives _ ((hg.items_eq ha).trans hls) (.inl fun h => ?_)).bind
      fun _ _ _ h => h.elim
    obtain ⟨ls, rs, hls', -⟩ := h.items
    rw [hls] at hls'
    cases hls'
  | some ls =>
  refine (arrayItems_gives _ ((hg.items_eq ha).trans hls)).bind ?_
  rintro ls' m' - ⟨hls', hm'⟩
  subst ls' m'
  cases hrs : m₀.items? b with
  | none =>
    refine (arrayItems_none_gives _ ((hg.items_eq hb).trans hrs) (.inl fun h => ?_)).bind
      fun _ _ _ h => h.elim
    obtain ⟨ls, rs, -, hrs', -⟩ := h.items
    rw [hrs] at hrs'
    cases hrs'
  | some rs =>
  refine (arrayItems_gives _ ((hg.items_eq hb).trans hrs)).bind ?_
  rintro rs' m' - ⟨hrs', hm'⟩
  subst rs' m'
  have hshape : ¬ SameShapes p op m₀ ls.toList rs.toList →
      ¬ SameShape p op m₀ (.array a) (.array b) := by
    intro hno h
    obtain ⟨ls', rs', hls', hrs', hs⟩ := h.items
    rw [hls] at hls'
    rw [hrs] at hrs'
    cases hls'
    cases hrs'
    exact hno hs
  dsimp only
  split
  · rename_i hne
    exact throw_bind (.inl (hshape fun hs => hne (by simpa using hs.length_eq)))
  · rename_i hsize
    simp only [Array.mapM_eq_mapM_toList, Array.toList_zip, map_eq_pure_bind, bind_assoc,
      pure_bind]
    have hloop := mapM_pointwises ih ls.toList rs.toList (by simpa using hsize)
      (fun u hu => Machine.within_of_closed hm hls (Array.mem_toList_iff.mp hu))
      (fun w hw => Machine.within_of_closed hm hrs (Array.mem_toList_iff.mp hw)) hg
    refine (hloop.mono (fun _ _ _ h => h) fun f h => ?_).bind fun vs m₁ hg₁ hvs => ?_
    · rcases h with hno | ⟨u, hu, hnested⟩
      · exact .inl (hshape hno)
      · exact .inr ⟨a, ls, rfl, hls, u, Array.mem_toList_iff.mp hu, hnested⟩
    · refine (newArray_allocates vs.toArray).mono ?_ fun _ h => h
      rintro v m₂ hg₂ ⟨rfl, hnew, hsize₂⟩
      rw [hsize₂]
      exact .array hls hrs hnew (by simpa using hvs.grows hg₂)

theorem elementWiseWith_leaves {fuel : Nat} {l r : Value} {m : Machine} (hln : l ≠ .null)
    (hrn : r ≠ .null) (hla : ∀ a, l ≠ .array a) (hra : ∀ b, r ≠ .array b) (hg : m₀.Grows m) :
    Op.Gives (elementWiseWith p op (fuel + 1) l r) m
      (fun v m' => Pointwise p op m₀ m' l r v m.objects.size m'.objects.size)
      (fun _ => ¬ SameShape p op m₀ l r ∨ l.Nested m₀ (fuel + 1)) := by
  rw [elementWiseWith.eq_7 p op l r fuel hln hla hrn hra fun a _ h _ => hla a h]
  unfold Op.Gives
  rw [arithmeticOn_run]
  cases hcalc : arithmetic (render p m) op l r true with
  | ok v => exact ⟨.refl m, .leaf hla hra hln hrn ⟨m, hg, .refl m, hcalc⟩⟩
  | error f =>
    refine .inl fun h => ?_
    cases h with
    | leaf _ _ _ _ hok =>
      obtain ⟨v, hv⟩ := arithmetic_ok_of_text (render p m) hok.choose_spec
      rw [hcalc] at hv
      cases hv
    | array => exact hla _ rfl

theorem elementWiseWith_pointwise (hm : m₀.closed = true) :
    ∀ (fuel : Nat) {l r : Value} {m : Machine}, l.within m₀.objects.size = true →
      r.within m₀.objects.size = true → m₀.Grows m →
      Op.Gives (elementWiseWith p op fuel l r) m
        (fun v m' => Pointwise p op m₀ m' l r v m.objects.size m'.objects.size)
        (fun _ => ¬ SameShape p op m₀ l r ∨ l.Nested m₀ fuel)
  | 0, _, _, _, _, _, _ => by
    rw [elementWiseWith.eq_1]
    exact .throw (.inr trivial)
  | fuel + 1, l, r, m, hl, hr, hg => by
    by_cases hln : l = .null
    · subst hln
      rw [elementWiseWith.eq_3]
      exact .throw (.inl fun h => h.ne_null_left rfl)
    by_cases hrn : r = .null
    · subst hrn
      rw [elementWiseWith.eq_4 p op l fuel hln]
      exact .throw (.inl fun h => h.ne_null_right rfl)
    rcases Value.eq_array_or l with ⟨a, rfl⟩ | hla <;> rcases Value.eq_array_or r with ⟨b, rfl⟩ | hra
    · exact elementWiseWith_arrays hm (elementWiseWith_pointwise hm fuel)
        (by simpa [Value.within] using hl) (by simpa [Value.within] using hr) hg
    · rw [elementWiseWith.eq_5 p op r fuel a hra hrn]
      exact .throw (.inl fun h => by obtain ⟨b, rfl⟩ := h.array_left; exact hra b rfl)
    · rw [elementWiseWith.eq_6 p op l fuel b hla hln]
      exact .throw (.inl fun h => by obtain ⟨a, rfl⟩ := h.array_right; exact hla a rfl)
    · exact elementWiseWith_leaves hln hrn hla hra hg

end Run

/-- Element-wise arithmetic is arithmetic at each position of two trees of one shape. On a heap
whose arrays refer only to its own objects, element-wise `op` on two of its values goes through
exactly when they have one shape, with no `null` at any position, and strict arithmetic goes through
on every pair of leaves. The result is then a tree of that shape whose leaves are what strict
arithmetic gives on the pairs of leaves, and whose arrays are exactly the objects the run adds to
the heap, each allocated once. -/
theorem element_wise_is_pointwise (p : Typed.Program) (op : BinOp) (m : Machine)
    (hm : m.closed = true) (l r : Value) (hl : l.within m.objects.size = true)
    (hr : r.within m.objects.size = true) :
    ((∃ v m', (elementWise p op l r).run.run m = (.ok v, m')) ↔ SameShape p op m l r) ∧
      ∀ v m', (elementWise p op l r).run.run m = (.ok v, m') →
        m.Grows m' ∧ Pointwise p op m m' l r v m.objects.size m'.objects.size := by
  have hgives : Op.Gives (elementWiseWith p op (m.objects.size + 1) l r) m _ _ :=
    elementWiseWith_pointwise hm (m.objects.size + 1) hl hr (.refl m)
  have heq : (elementWise p op l r).run.run m =
      (elementWiseWith p op (m.objects.size + 1) l r).run.run m :=
    Op.get_bind_run (fun s => elementWiseWith p op (s.objects.size + 1) l r) m
  unfold Op.Gives at hgives
  rw [← heq] at hgives
  have hok : ∀ v m', (elementWise p op l r).run.run m = (.ok v, m') →
      m.Grows m' ∧ Pointwise p op m m' l r v m.objects.size m'.objects.size := by
    intro v m' h
    rw [h] at hgives
    exact hgives
  refine ⟨⟨fun ⟨v, m', h⟩ => (hok v m' h).2.sameShape, fun hshape => ?_⟩, hok⟩
  rcases hres : (elementWise p op l r).run.run m with ⟨_ | v, m'⟩
  · rw [hres] at hgives
    rcases hgives with hno | hnested
    · exact absurd hshape hno
    · exact absurd hnested hshape.not_nested
  · exact ⟨v, m', rfl⟩

/-- Two vectors of two integers on a heap that holds just them. -/
theorem element_wise_is_pointwise_vectors :
    (⟨#[.array #[.int 1, .int 2], .array #[.int 3, .int 4]], #[], ""⟩ : Machine).closed = true ∧
      (Value.array 0).within 2 = true ∧ (Value.array 1).within 2 = true ∧
      ((∃ v m', (elementWise default .add (.array 0) (.array 1)).run.run
          ⟨#[.array #[.int 1, .int 2], .array #[.int 3, .int 4]], #[], ""⟩ = (.ok v, m')) ↔
        SameShape default .add ⟨#[.array #[.int 1, .int 2], .array #[.int 3, .int 4]], #[], ""⟩
          (.array 0) (.array 1)) ∧
      ∀ v m', (elementWise default .add (.array 0) (.array 1)).run.run
          ⟨#[.array #[.int 1, .int 2], .array #[.int 3, .int 4]], #[], ""⟩ = (.ok v, m') →
        Machine.Grows ⟨#[.array #[.int 1, .int 2], .array #[.int 3, .int 4]], #[], ""⟩ m' ∧
        Pointwise default .add ⟨#[.array #[.int 1, .int 2], .array #[.int 3, .int 4]], #[], ""⟩ m'
          (.array 0) (.array 1) v 2 m'.objects.size :=
  have hm : (⟨#[.array #[.int 1, .int 2], .array #[.int 3, .int 4]], #[], ""⟩ : Machine).closed =
      true := by simp [Machine.closed, Value.within]
  ⟨hm, rfl, rfl, element_wise_is_pointwise default .add _ hm (.array 0) (.array 1) rfl rfl⟩

end Sigh
