import Sigh.Proofs.DotProduct
import Sigh.Proofs.Gives
import Sigh.Proofs.Supertypes

namespace Sigh

open Op.Gives

theorem Ty.depth_eq_zero {t : Ty} (h : ∀ c, t ≠ .array c) : t.depth = 0 := by
  cases t with
  | array c => exact absurd rfl (h c)
  | _ => rfl

/-- The types the checker gives to `l op r` taken on each pair of elements: numbers as arithmetic
gives them, a string when `+` has a string on either side, and an array of the results on two
arrays of the same depth. -/
inductive ElementWise (op : BinOp) : Ty → Ty → Ty → Prop
  | numeric {a b t : Ty} : Ty.numericResult? a b = some t → ElementWise op a b t
  | concat {a b : Ty} : op = .add → (a = .string ∨ b = .string) → a.depth = 0 →
      b.depth = 0 →
      a.isVoid = false → b.isVoid = false → ElementWise op a b .string
  | array {a b t : Ty} : ElementWise op a b t → ElementWise op (.array a) (.array b) (.array t)

theorem Ty.eq_array_or (t : Ty) : (∃ c, t = .array c) ∨ ∀ c, t ≠ .array c := by
  cases t with
  | array c => exact .inl ⟨c, rfl⟩
  | _ => exact .inr fun _ h => by cases h

theorem elementWise_of_type {op : BinOp} {A B T : Ty} (h : Typing.elementWiseType op A B = some T) :
    ElementWise op A B T := by
  induction A using Ty.array_induction generalizing B T with
  | array a ih =>
    rcases B.eq_array_or with ⟨b, rfl⟩ | hB
    · rcases a.eq_array_or with ⟨a', rfl⟩ | ha <;> rcases b.eq_array_or with ⟨b', rfl⟩ | hb
      · rw [Typing.elementWiseType.eq_1] at h
        obtain ⟨t, ht, rfl⟩ := Option.map_eq_some_iff.mp h
        exact .array (ih ht)
      · rw [Typing.elementWiseType.eq_2 op b a' hb] at h
        cases h
      · rw [Typing.elementWiseType.eq_3 op a b' ha] at h
        cases h
      · rw [Typing.elementWiseType.eq_4 op a b ha hb fun _ _ h _ => ha _ h] at h
        split at h
        · rename_i hjoin
          simp only [Bool.and_eq_true, beq_iff_eq, Bool.or_eq_true] at hjoin
          split at h
          · rename_i hvoid
            cases h
            simp only [Bool.and_eq_true, Bool.not_eq_true'] at hvoid
            exact .array (.concat hjoin.1 hjoin.2
              (Ty.depth_eq_zero ha) (Ty.depth_eq_zero hb) hvoid.1 hvoid.2)
          · cases h
        · obtain ⟨t, ht, rfl⟩ := Option.map_eq_some_iff.mp h
          exact .array (.numeric ht)
    · rw [Typing.elementWiseType.eq_5 op _ _ fun _ _ _ hb => hB _ hb] at h
      cases h
  | leaf A hA =>
    rw [Typing.elementWiseType.eq_5 op _ _ fun _ _ ha _ => hA _ ha] at h
    cases h

theorem Value.ne_array_of_conforms {p : Typed.Program} {m : Machine} {v : Value} {t : Ty}
    (h : v.conforms p m t = true) (ht : t.depth = 0) : ∀ a, v ≠ .array a := by
  rintro a rfl
  obtain ⟨c, rfl⟩ := Value.eq_array_of_conforms h
  simp [Ty.depth] at ht

/-- The type of a number. -/
def Value.numberType? : Value → Option Ty
  | .int _ => some .int
  | .float _ => some .float
  | _ => none

theorem Value.numberType?_eq_some {v : Value} {t : Ty} (h : v.numberType? = some t) :
    (∃ x, v = .int x ∧ t = .int) ∨ (∃ x, v = .float x ∧ t = .float) := by
  cases v <;> simp [Value.numberType?] at h
  · exact .inl ⟨_, rfl, h.symm⟩
  · exact .inr ⟨_, rfl, h.symm⟩

theorem Value.dense_of_numberType {v : Value} {t : Ty} (h : v.numberType? = some t)
    (m : Machine) : v.Dense m t := by
  rcases Value.numberType?_eq_some h with ⟨x, rfl, rfl⟩ | ⟨x, rfl, rfl⟩ <;>
    simp [Value.Dense]

theorem Value.numberType_of_conforms {p : Typed.Program} {m : Machine} {v : Value} {t : Ty}
    (h : v.conforms p m t = true) (ht : t = .int ∨ t = .float) (hv : v ≠ .null) :
    v.numberType? = some t := by
  rcases ht with rfl | rfl <;> cases v <;>
    simp_all [Value.conforms, Value.numberType?, Typed.Function.ty, BEq.beq, Ty.beq]

theorem Value.eq_str_of_conforms {p : Typed.Program} {m : Machine} {v : Value}
    (h : v.conforms p m .string = true) (hv : v ≠ .null) : ∃ s, v = .str s := by
  cases v <;> simp_all [Value.conforms, Typed.Function.ty, BEq.beq, Ty.beq]

theorem Ty.numericResult?_operands {a b t : Ty} (h : Ty.numericResult? a b = some t) :
    (a = .int ∨ a = .float) ∧ (b = .int ∨ b = .float) := by
  cases a <;> cases b <;> simp [Ty.numericResult?] at h ⊢

theorem arithmetic_numbers (text : Value → String) {op : BinOp}
    (hop : op = .add ∨ op = .sub ∨ op = .mul) (strict : Bool) {l r : Value} {a b t : Ty}
    (hl : l.numberType? = some a) (hr : r.numberType? = some b)
    (ht : Ty.numericResult? a b = some t) :
    ∃ v, arithmetic text op l r strict = .ok v ∧ v.numberType? = some t := by
  rcases Value.numberType?_eq_some hl with ⟨x, rfl, rfl⟩ | ⟨x, rfl, rfl⟩ <;>
    rcases Value.numberType?_eq_some hr with ⟨y, rfl, rfl⟩ | ⟨y, rfl, rfl⟩ <;>
    simp only [Ty.numericResult?, Option.some.injEq] at ht <;> subst ht <;>
    rcases hop with rfl | rfl | rfl <;> exact ⟨_, rfl, rfl⟩

theorem arithmetic_numbers_div (text : Value → String) (strict : Bool) {l r : Value} {a b t : Ty}
    (hl : l.numberType? = some a) (hr : r.numberType? = some b)
    (ht : Ty.numericResult? a b = some t) :
    arithmetic text .div l r strict = .error .divisionByZero ∨
      ∃ v, arithmetic text .div l r strict = .ok v ∧ v.numberType? = some t := by
  rcases Value.numberType?_eq_some hl with ⟨x, rfl, rfl⟩ | ⟨x, rfl, rfl⟩ <;>
    rcases Value.numberType?_eq_some hr with ⟨y, rfl, rfl⟩ | ⟨y, rfl, rfl⟩ <;>
    simp only [Ty.numericResult?, Option.some.injEq] at ht <;> subst ht
  · by_cases hy : y = 0
    · exact .inl (by simp [arithmetic, hy])
    · exact .inr ⟨.int (x / y), by simp [arithmetic, hy], rfl⟩
  all_goals
    simp only [arithmetic, Value.isNumber, Bool.and_self, if_true]
    split
    · exact .inl rfl
    · exact .inr ⟨_, rfl, rfl⟩

theorem arithmetic_elementWise {p : Typed.Program} {m : Machine} (text : Value → String)
    {op : BinOp} (hop : op = .add ∨ op = .sub ∨ op = .mul ∨ op = .div) {a b t : Ty}
    (h : ElementWise op a b t) (ha : a.depth = 0) {l r : Value} (hl : l.conforms p m a = true)
    (hr : r.conforms p m b = true) (hln : l ≠ .null) (hrn : r ≠ .null) :
    match arithmetic text op l r true with
    | .ok v => v.Dense m t
    | .error f => f = .divisionByZero := by
  cases h with
  | numeric hnum =>
    obtain ⟨hta, htb⟩ := Ty.numericResult?_operands hnum
    have hl' := Value.numberType_of_conforms hl hta hln
    have hr' := Value.numberType_of_conforms hr htb hrn
    have hnumber : ∀ v, arithmetic text op l r true = .ok v → v.numberType? = some t →
        match arithmetic text op l r true with
        | .ok v => v.Dense m t
        | .error f => f = .divisionByZero := by
      intro v hv hvt
      rw [hv]
      exact Value.dense_of_numberType hvt m
    rcases hop with rfl | rfl | rfl | rfl
    · obtain ⟨v, hv, hvt⟩ := arithmetic_numbers text (.inl rfl) true hl' hr' hnum
      exact hnumber v hv hvt
    · obtain ⟨v, hv, hvt⟩ := arithmetic_numbers text (.inr (.inl rfl)) true hl' hr' hnum
      exact hnumber v hv hvt
    · obtain ⟨v, hv, hvt⟩ := arithmetic_numbers text (.inr (.inr rfl)) true hl' hr' hnum
      exact hnumber v hv hvt
    · rcases arithmetic_numbers_div text true hl' hr' hnum with hz | ⟨v, hv, hvt⟩
      · rw [hz]
      · exact hnumber v hv hvt
  | concat hadd hstr _ _ _ _ =>
    subst hadd
    rcases hstr with rfl | rfl
    · obtain ⟨s, rfl⟩ := Value.eq_str_of_conforms hl hln
      simp [arithmetic, Value.isNumber, Value.isStr, Value.Dense]
    · obtain ⟨s, rfl⟩ := Value.eq_str_of_conforms hr hrn
      cases l <;> simp [arithmetic, Value.isNumber, Value.isStr, Value.Dense]
  | array _ => simp [Ty.depth] at ha

/-- The faults element-wise `op` stops with on operands that fit its types: a `null` operand or
element, a division by zero, or two arrays of different lengths side by side. -/
def ElementWiseFault (op : BinOp) : Fault → Prop
  | .nullPointer context => context = "element-wise operation on null"
  | .divisionByZero => True
  | .shapeMismatch detail => ∃ n k : Nat, n ≠ k ∧
      detail = "element-wise " ++ op.symbol ++ " on arrays of length " ++ toString n ++ " and " ++
        toString k
  | _ => False

theorem elementWiseWith_leaf {p : Typed.Program} {op : BinOp}
    (hop : op = .add ∨ op = .sub ∨ op = .mul ∨ op = .div) {a b t : Ty}
    (h : ElementWise op a b t)
    (ha : a.depth = 0) (hb : b.depth = 0) {l r : Value} {m : Machine}
    (hl : l.conforms p m a = true) (hr : r.conforms p m b = true) (fuel : Nat) :
    Op.Gives (elementWiseWith p op (fuel + 1) l r) m (fun v m' => v.Dense m' t)
      (ElementWiseFault op) := by
  by_cases hln : l = .null
  · subst hln
    rw [elementWiseWith.eq_3]
    exact .throw rfl
  by_cases hrn : r = .null
  · subst hrn
    rw [elementWiseWith.eq_4 p op l fuel hln]
    exact .throw rfl
  have hla := Value.ne_array_of_conforms hl ha
  have hra := Value.ne_array_of_conforms hr hb
  rw [elementWiseWith.eq_7 p op l r fuel hln hla hrn hra fun x _ hx _ => hla x hx]
  have hres := arithmetic_elementWise (render p m) hop h ha hl hr hln hrn
  unfold Op.Gives
  rw [arithmeticOn_run]
  cases hcalc : arithmetic (render p m) op l r true with
  | ok v =>
    rw [hcalc] at hres
    exact ⟨.refl m, hres⟩
  | error f =>
    rw [hcalc] at hres
    subst hres
    trivial

theorem elementWiseWith_gives {p : Typed.Program} {op : BinOp}
    (hop : op = .add ∨ op = .sub ∨ op = .mul ∨ op = .div) :
    ∀ (fuel : Nat) {A B T : Ty} {l r : Value} {m₀ m : Machine}, ElementWise op A B T →
      l.conforms p m₀ A = true → r.conforms p m₀ B = true → ¬ l.Nested m₀ fuel → m₀.Grows m →
      Op.Gives (elementWiseWith p op fuel l r) m (fun v m' => v.Dense m' T) (ElementWiseFault op)
  | 0, _, _, _, _, _, _, _, _, _, _, hn, _ => absurd trivial hn
  | fuel + 1, _, _, _, l, r, m₀, m, hT, hl, hr, hn, hg => by
    cases hT with
    | @array a b t hT' =>
      rcases Value.conforms_array_type hl with rfl | ⟨x, ls, rfl, hls, hlall⟩
      · rw [elementWiseWith.eq_3]
        exact .throw rfl
      rcases Value.conforms_array_type hr with rfl | ⟨y, rs, rfl, hrs, hrall⟩
      · rw [elementWiseWith.eq_4 p op (.array x) fuel (by simp)]
        exact .throw rfl
      rw [elementWiseWith.eq_2]
      refine (arrayItems_gives _ (hg.items hls)).bind ?_
      rintro _ _ - ⟨rfl, rfl⟩
      refine (arrayItems_gives _ (hg.items hrs)).bind ?_
      rintro _ _ - ⟨rfl, rfl⟩
      dsimp only
      split
      · rename_i hne
        exact Op.Gives.throw_bind ⟨_, _, hne, rfl⟩
      · refine (Op.Gives.array_mapM (q := fun v m' => v.Dense m' t)
          (fun _ _ _ hv hg' => Value.Dense.grows hv hg') _ fun pair hmem m' hg' => ?_).bind ?_
        · obtain ⟨u, w⟩ := pair
          have hu := Array.of_mem_zip hmem
          exact elementWiseWith_gives hop fuel hT' (hlall u hu.1) (hrall w hu.2)
            (Value.not_nested_of_mem hn hls u hu.1) (hg.trans hg')
        · intro items m' _ hitems
          exact (newArray_gives items).mono (fun v m'' hg'' ⟨hv, hnew⟩ => by
            subst hv
            exact Value.dense_array_iff.mpr ⟨items, hnew, fun v hv => (hitems v hv).grows hg''⟩)
            fun _ h => h
    | numeric hnum =>
      obtain ⟨ha, hb⟩ := Ty.numericResult?_operands hnum
      have hdepth : ∀ c : Ty, (c = .int ∨ c = .float) → c.depth = 0 := by
        rintro c (rfl | rfl) <;> rfl
      exact elementWiseWith_leaf hop (.numeric hnum) (hdepth _ ha) (hdepth _ hb)
        (Value.conforms.grows hl hg)
        (Value.conforms.grows hr hg) fuel
    | concat hadd hstr ha hb hva hvb =>
      exact elementWiseWith_leaf hop (.concat hadd hstr ha hb hva hvb) ha hb
        (Value.conforms.grows hl hg)
        (Value.conforms.grows hr hg) fuel

theorem elementWise_gives {p : Typed.Program} {op : BinOp}
    (hop : op = .add ∨ op = .sub ∨ op = .mul ∨ op = .div) {A B T : Ty}
    (hT : Typing.elementWiseType op A B = some T) {l r : Value} {m : Machine}
    (hl : l.conforms p m A = true) (hr : r.conforms p m B = true) :
    Op.Gives (elementWise p op l r) m (fun v m' => v.Dense m' T) (ElementWiseFault op) := by
  unfold elementWise
  refine Op.Gives.get.bind ?_
  rintro _ _ - ⟨rfl, rfl⟩
  exact elementWiseWith_gives hop _ (elementWise_of_type hT) hl hr
    (Value.conforms.not_nested hl) (.refl _)

/-- A value that is `null` or a number of type `t`: what an element of an array of numbers
holds. -/
def Value.NumberOrNull (t : Ty) (v : Value) : Prop := v = .null ∨ v.numberType? = some t

theorem Value.numberOrNull_of_conforms {p : Typed.Program} {m : Machine} {c t : Ty} {v : Value}
    (hc : c.depth = 0) (ht : Typing.numericLeaf c = some t) (h : v.conforms p m c = true) :
    v.NumberOrNull t := by
  by_cases hv : v = .null
  · exact .inl hv
  refine .inr ?_
  cases c with
  | array _ => simp [Ty.depth] at hc
  | int =>
    cases ht
    exact Value.numberType_of_conforms h (.inl rfl) hv
  | float =>
    cases ht
    exact Value.numberType_of_conforms h (.inr rfl) hv
  | null => cases v <;> simp_all [Value.conforms, Typed.Function.ty, BEq.beq, Ty.beq]
  | _ => simp [Typing.numericLeaf, Ty.leaf] at ht

theorem Value.numberType_isNumber {v : Value} {t : Ty} (h : v.numberType? = some t) :
    t = .int ∨ t = .float := by
  rcases Value.numberType?_eq_some h with ⟨_, -, rfl⟩ | ⟨_, -, rfl⟩
  · exact .inl rfl
  · exact .inr rfl

/-- The faults `@` stops with on operands that fit its types. -/
def DotFault : Fault → Prop
  | .nullPointer _ | .shapeMismatch _ => True
  | _ => False

theorem arithmetic_mul_fault {text : Value → String} {a b : Value} {la lb s : Ty}
    (ha : a.NumberOrNull la) (hb : b.NumberOrNull lb) (hs : Ty.numericResult? la lb = some s)
    {f : Fault} (hf : arithmetic text .mul a b false = .error f) : DotFault f := by
  rcases ha with rfl | ha
  · cases b <;> simp [arithmetic, nullOr, Value.isNumber] at hf <;> subst hf <;> trivial
  rcases hb with rfl | hb
  · rcases Value.numberType?_eq_some ha with ⟨x, rfl, -⟩ | ⟨x, rfl, -⟩ <;>
      simp [arithmetic, nullOr, Value.isNumber] at hf <;> subst hf <;> trivial
  obtain ⟨v, hv, -⟩ := arithmetic_numbers text (.inr (.inr rfl)) false ha hb hs
  rw [hv] at hf
  cases hf

theorem arithmetic_mul_ok {text : Value → String} {a b : Value} {la lb s : Ty}
    (ha : a.NumberOrNull la) (hb : b.NumberOrNull lb) (hs : Ty.numericResult? la lb = some s)
    {v : Value} (hv : arithmetic text .mul a b false = .ok v) : v.numberType? = some s := by
  rcases ha with rfl | ha
  · cases b <;> simp [arithmetic, nullOr, Value.isNumber] at hv
  rcases hb with rfl | hb
  · rcases Value.numberType?_eq_some ha with ⟨x, rfl, -⟩ | ⟨x, rfl, -⟩ <;>
      simp [arithmetic, nullOr, Value.isNumber] at hv
  obtain ⟨w, hw, hwt⟩ := arithmetic_numbers text (.inr (.inr rfl)) false ha hb hs
  rw [hw] at hv
  cases hv
  exact hwt

theorem Ty.numericResult?_self {s : Ty} (h : s = .int ∨ s = .float) :
    Ty.numericResult? s s = some s := by
  rcases h with rfl | rfl <;> rfl

theorem arithmeticOn_add_gives {p : Typed.Program} {m : Machine} {bad : Fault → Prop}
    {acc v : Value} {s : Ty} (hacc : acc.numberType? = some s) (hv : v.numberType? = some s) :
    Op.Gives (arithmeticOn p .add acc v false) m (fun w m' => m' = m ∧ w.numberType? = some s)
      bad := by
  obtain ⟨w, hw, hwt⟩ := arithmetic_numbers (render p m) (.inl rfl) false hacc hv
    (Ty.numericResult?_self (Value.numberType_isNumber hacc))
  refine (arithmeticOn_gives .add acc v false fun f hf => ?_).mono ?_ fun _ h => h
  · rw [hw] at hf
    cases hf
  · rintro w' _ - ⟨rfl, hw'⟩
    rw [hw] at hw'
    cases hw'
    exact ⟨rfl, hwt⟩

theorem multiplyAdd_gives {p : Typed.Program} {m : Machine} {acc a b : Value} {la lb s : Ty}
    (hacc : acc.numberType? = some s) (ha : a.NumberOrNull la) (hb : b.NumberOrNull lb)
    (hs : Ty.numericResult? la lb = some s) :
    Op.Gives (multiplyAdd p acc a b) m (fun v m' => m' = m ∧ v.numberType? = some s)
      DotFault := by
  unfold multiplyAdd
  refine (arithmeticOn_gives .mul a b false fun f hf => arithmetic_mul_fault ha hb hs hf).bind ?_
  rintro product _ - ⟨rfl, hproduct⟩
  exact arithmeticOn_add_gives hacc (arithmetic_mul_ok ha hb hs hproduct)

theorem Ty.numericResult?_isNumber {a b s : Ty} (h : Ty.numericResult? a b = some s) :
    s = .int ∨ s = .float := by
  cases a <;> cases b <;> simp [Ty.numericResult?] at h <;> simp [← h]

theorem zeroOf_numberType {s : Ty} (h : s = .int ∨ s = .float) :
    (zeroOf (s == .float)).numberType? = some s := by
  rcases h with rfl | rfl <;> rfl

theorem toFloatIf_numberType {v : Value} {s : Ty} (h : v.numberType? = some s) :
    (v.toFloatIf (s == .float)).numberType? = some s := by
  rcases Value.numberType?_eq_some h with ⟨x, rfl, rfl⟩ | ⟨x, rfl, rfl⟩ <;> rfl

theorem sumOfProducts_gives {p : Typed.Program} {m : Machine} {la lb s : Ty}
    (hs : Ty.numericResult? la lb = some s) {pairs : List (Value × Value)}
    (hpairs : ∀ pr ∈ pairs, pr.1.NumberOrNull la ∧ pr.2.NumberOrNull lb) :
    Op.Gives (sumOfProducts p (s == .float) pairs) m (fun v m' => m' = m ∧ v.numberType? = some s)
      DotFault := by
  unfold sumOfProducts
  refine (Op.Gives.list_foldlM (I := fun acc m' => m' = m ∧ acc.numberType? = some s) pairs _ m
    ⟨rfl, zeroOf_numberType (Ty.numericResult?_isNumber hs)⟩ ?_).bind ?_
  · rintro ⟨a, b⟩ hmem acc _ - ⟨rfl, hacc⟩
    exact multiplyAdd_gives hacc (hpairs _ hmem).1 (hpairs _ hmem).2 hs
  · rintro acc _ - ⟨rfl, hacc⟩
    exact .pure ⟨rfl, toFloatIf_numberType hacc⟩

theorem matrixRows_gives {p : Typed.Program} {m : Machine} {v : Value} {c : Ty}
    (h : v.conforms p m (.array (.array c)) = true) :
    Op.Gives (matrixRows v) m
      (fun rows _ => ∀ row ∈ rows, ∀ w ∈ row, w.conforms p m c = true)
      DotFault := by
  unfold matrixRows
  refine (arrayItems_conforms trivial h).bind ?_
  rintro rows m₁ - ⟨hm, hrows⟩
  subst m₁
  refine (array_mapM
    (q := fun (row : Array Value) (_ : Machine) => ∀ w ∈ row, w.conforms p m c = true)
    (fun _ _ _ h _ => h)
    rows fun row hrow m' hg => ?_).bind ?_
  · rcases Value.conforms_array_type (hrows row hrow) with rfl | ⟨a, items, rfl, hitems, hall⟩
    · exact of_run_error (arrayItems_null m' _) trivial
    · refine (arrayItems_gives _ (hg.items hitems)).mono ?_ fun _ h => h
      rintro _ _ - ⟨rfl, -⟩
      exact hall
  · rintro rows' _ - hrows'
    split
    · split
      · exact throw_bind trivial
      · exact .pure hrows'
    · exact .pure hrows'

theorem Typed.DotShape.ofDepths?_eq_some {x y : Nat} {shape : Typed.DotShape}
    (h : Typed.DotShape.ofDepths? x y = some shape) :
    (shape = .vectors ∧ x = 1 ∧ y = 1) ∨ (shape = .vectorByColumn ∧ x = 1 ∧ y = 2) ∨
      (shape = .matrices ∧ x = 2 ∧ y = 2) := by
  unfold Typed.DotShape.ofDepths? at h
  split at h <;> cases h <;> simp

theorem Typing.dotProductType_shape {A B T : Ty} (h : Typing.dotProductType A B = some T) :
    ∃ shape, Typed.DotShape.ofDepths? A.depth B.depth = some shape := by
  unfold Typing.dotProductType at h
  simp only [Option.bind_eq_bind, Option.bind_eq_some_iff] at h
  obtain ⟨-, -, -, -, -, -, shape, hshape, -⟩ := h
  exact ⟨shape, hshape⟩

theorem dotProductType_eq_some {A B T : Ty} {shape : Typed.DotShape}
    (h : Typing.dotProductType A B = some T)
    (hshape : Typed.DotShape.ofDepths? A.depth B.depth = some shape) :
    ∃ la lb s, Typing.numericLeaf A = some la ∧ Typing.numericLeaf B = some lb ∧
      Ty.numericResult? la lb = some s ∧
      ((shape = .vectors ∧ A.depth = 1 ∧ B.depth = 1 ∧ T = s) ∨
        (shape = .vectorByColumn ∧ A.depth = 1 ∧ B.depth = 2 ∧ T = s) ∨
        (shape = .matrices ∧ A.depth = 2 ∧ B.depth = 2 ∧ T = .array (.array s))) := by
  unfold Typing.dotProductType at h
  simp only [Option.bind_eq_bind, Option.bind_eq_some_iff, hshape] at h
  obtain ⟨la, hla, lb, hlb, s, hs, _, hw, hT⟩ := h
  cases hw
  refine ⟨la, lb, s, hla, hlb, hs, ?_⟩
  rcases Typed.DotShape.ofDepths?_eq_some hshape with
    ⟨rfl, hA, hB⟩ | ⟨rfl, hA, hB⟩ | ⟨rfl, hA, hB⟩
  · exact .inl ⟨rfl, hA, hB, (Option.some.inj hT).symm⟩
  · exact .inr (.inl ⟨rfl, hA, hB, (Option.some.inj hT).symm⟩)
  · exact .inr (.inr ⟨rfl, hA, hB, (Option.some.inj hT).symm⟩)

theorem Ty.eq_array_of_depth {t : Ty} {k : Nat} (h : t.depth = k + 1) :
    ∃ c, t = .array c ∧ c.depth = k := by
  cases t with
  | array c => exact ⟨c, rfl, by simpa [Ty.depth] using h⟩
  | _ => simp [Ty.depth] at h

theorem Typing.numericLeaf_array (c : Ty) :
    Typing.numericLeaf (.array c) = Typing.numericLeaf c := rfl

theorem Ty.leaf_of_isNumber {s : Ty} (h : s = .int ∨ s = .float) : s.leaf = s := by
  rcases h with rfl | rfl <;> rfl

theorem Value.numberOrNull_getD {t : Ty} {row : Array Value} (h : ∀ w ∈ row, w.NumberOrNull t)
    (i : Nat) : (row.getD i .null).NumberOrNull t := by
  rw [Array.getD_eq_getD_getElem?]
  cases hi : row[i]? with
  | none => exact .inl rfl
  | some w => exact h w (Array.mem_of_getElem? hi)

theorem Value.numberOrNull_zip {la lb : Ty} {xs ys : List Value}
    (hxs : ∀ w ∈ xs, w.NumberOrNull la) (hys : ∀ w ∈ ys, w.NumberOrNull lb) :
    ∀ pr ∈ xs.zip ys, pr.1.NumberOrNull la ∧ pr.2.NumberOrNull lb := by
  intro pr hpr
  exact ⟨hxs _ (List.of_mem_zip hpr).1, hys _ (List.of_mem_zip hpr).2⟩

section Dot

variable {p : Typed.Program} {m : Machine} {l r : Value} {ca cb la lb s : Ty}

theorem Value.numberOrNull_of_vector (hc : ca.depth = 0) (hla : Typing.numericLeaf ca = some la)
    {items : Array Value} (h : ∀ w ∈ items, w.conforms p m ca = true) :
    ∀ w ∈ items.toList, w.NumberOrNull la :=
  fun w hw => Value.numberOrNull_of_conforms hc hla (h w (Array.mem_toList_iff.mp hw))

theorem dotProduct_vectors_gives (hca : ca.depth = 0) (hcb : cb.depth = 0)
    (hla : Typing.numericLeaf ca = some la) (hlb : Typing.numericLeaf cb = some lb)
    (hs : Ty.numericResult? la lb = some s) (hl : l.conforms p m (.array ca) = true)
    (hr : r.conforms p m (.array cb) = true) :
    Op.Gives (dotProduct p l r .vectors (s == .float)) m (fun v _ => v.numberType? = some s)
      DotFault := by
  unfold dotProduct
  refine (arrayItems_conforms trivial hl).bind ?_
  rintro ls m₁ - ⟨hm, hls⟩
  subst m₁
  refine (arrayItems_conforms trivial hr).bind ?_
  rintro rs m₁ - ⟨hm, hrs⟩
  subst m₁
  split
  · exact throw_bind trivial
  · refine (sumOfProducts_gives hs (Value.numberOrNull_zip ?_ ?_)).mono (fun _ _ _ h => h.2)
      fun _ h => h
    · exact Value.numberOrNull_of_vector hca hla hls
    · exact Value.numberOrNull_of_vector hcb hlb hrs

theorem Value.numberOrNull_of_rows (hc : ca.depth = 0) (hla : Typing.numericLeaf ca = some la)
    {rows : Array (Array Value)} (h : ∀ row ∈ rows, ∀ w ∈ row, w.conforms p m ca = true) :
    ∀ row ∈ rows, ∀ w ∈ row, w.NumberOrNull la :=
  fun row hrow w hw => Value.numberOrNull_of_conforms hc hla (h row hrow w hw)

theorem dotProduct_vectorByColumn_gives (hca : ca.depth = 0) (hcb : cb.depth = 0)
    (hla : Typing.numericLeaf ca = some la) (hlb : Typing.numericLeaf cb = some lb)
    (hs : Ty.numericResult? la lb = some s) (hl : l.conforms p m (.array ca) = true)
    (hr : r.conforms p m (.array (.array cb)) = true) :
    Op.Gives (dotProduct p l r .vectorByColumn (s == .float)) m
      (fun v _ => v.numberType? = some s) DotFault := by
  unfold dotProduct
  refine (arrayItems_conforms trivial hl).bind ?_
  rintro ls m₁ - ⟨hm, hls⟩
  subst m₁
  refine (matrixRows_gives hr).bind ?_
  rintro rows m₁ - hrows
  dsimp only
  split
  · exact throw_bind trivial
  · refine (sumOfProducts_gives hs (Value.numberOrNull_zip ?_ ?_)).mono (fun _ _ _ h => h.2)
      fun _ h => h
    · exact Value.numberOrNull_of_vector hca hla hls
    · intro w hw
      obtain ⟨row, hrow, rfl⟩ := List.mem_map.mp hw
      exact Value.numberOrNull_getD
        (Value.numberOrNull_of_rows hcb hlb hrows row (Array.mem_toList_iff.mp hrow)) 0

theorem dotProduct_matrices_gives (hca : ca.depth = 0) (hcb : cb.depth = 0)
    (hla : Typing.numericLeaf ca = some la) (hlb : Typing.numericLeaf cb = some lb)
    (hs : Ty.numericResult? la lb = some s) (hl : l.conforms p m (.array (.array ca)) = true)
    (hr : r.conforms p m (.array (.array cb)) = true) :
    Op.Gives (dotProduct p l r .matrices (s == .float)) m
      (fun v m' => v.Dense m' (.array (.array s))) DotFault := by
  unfold dotProduct
  refine (matrixRows_gives hl).bind ?_
  rintro ls m₁ hg₁ hls
  refine (matrixRows_gives (Value.conforms.grows hr hg₁)).bind ?_
  rintro rs m₂ - hrs
  dsimp only
  split
  · exact throw_bind trivial
  refine (array_mapM (q := fun (row : Value) (m' : Machine) => row.Dense m' (.array s))
    (fun _ _ _ h hg => Value.Dense.grows h hg) ls fun row hrow m₃ _ => ?_).bind ?_
  · refine (list_mapM (q := fun (v : Value) (_ : Machine) => v.numberType? = some s)
      (fun _ _ _ h _ => h) _ m₃ fun column _ m₄ _ => ?_).bind ?_
    · refine (sumOfProducts_gives hs (Value.numberOrNull_zip ?_ ?_)).mono (fun _ _ _ h => h.2)
        fun _ h => h
      · exact fun w hw => Value.numberOrNull_of_rows hca hla hls row hrow w
          (Array.mem_toList_iff.mp hw)
      · intro w hw
        obtain ⟨rrow, hrrow, rfl⟩ := List.mem_map.mp hw
        exact Value.numberOrNull_getD
          (Value.numberOrNull_of_rows hcb hlb hrs rrow (Array.mem_toList_iff.mp hrrow)) column
    · rintro out m₄ - hout
      exact newArray_dense fun w hw =>
        Value.dense_of_numberType (hout w (List.mem_toArray.mp hw)) m₄
  · rintro rows m₃ - hrows
    exact newArray_dense hrows

end Dot

theorem dotProduct_gives {p : Typed.Program} {A B T : Ty} {shape : Typed.DotShape}
    (hT : Typing.dotProductType A B = some T)
    (hshape : Typed.DotShape.ofDepths? A.depth B.depth = some shape) {l r : Value} {m : Machine}
    (hl : l.conforms p m A = true) (hr : r.conforms p m B = true) :
    Op.Gives (dotProduct p l r shape (T.leaf == .float)) m (fun v m' => v.Dense m' T) DotFault := by
  obtain ⟨la, lb, s, hla, hlb, hs, hcases⟩ := dotProductType_eq_some hT hshape
  have hleaf : s.leaf = s := Ty.leaf_of_isNumber (Ty.numericResult?_isNumber hs)
  rcases hcases with ⟨rfl, hA, hB, rfl⟩ | ⟨rfl, hA, hB, rfl⟩ | ⟨rfl, hA, hB, rfl⟩
  · obtain ⟨ca, rfl, hca⟩ := Ty.eq_array_of_depth hA
    obtain ⟨cb, rfl, hcb⟩ := Ty.eq_array_of_depth hB
    rw [Typing.numericLeaf_array] at hla hlb
    rw [hleaf]
    exact (dotProduct_vectors_gives hca hcb hla hlb hs hl hr).mono
      (fun v m' _ h => Value.dense_of_numberType h m') fun _ h => h
  · obtain ⟨ca, rfl, hca⟩ := Ty.eq_array_of_depth hA
    obtain ⟨cb, rfl, hcb₁⟩ := Ty.eq_array_of_depth hB
    obtain ⟨cb, rfl, hcb⟩ := Ty.eq_array_of_depth hcb₁
    rw [Typing.numericLeaf_array] at hla
    rw [Typing.numericLeaf_array, Typing.numericLeaf_array] at hlb
    rw [hleaf]
    exact (dotProduct_vectorByColumn_gives hca hcb hla hlb hs hl hr).mono
      (fun v m' _ h => Value.dense_of_numberType h m') fun _ h => h
  · obtain ⟨ca, rfl, hca₁⟩ := Ty.eq_array_of_depth hA
    obtain ⟨ca, rfl, hca⟩ := Ty.eq_array_of_depth hca₁
    obtain ⟨cb, rfl, hcb₁⟩ := Ty.eq_array_of_depth hB
    obtain ⟨cb, rfl, hcb⟩ := Ty.eq_array_of_depth hcb₁
    rw [Typing.numericLeaf_array, Typing.numericLeaf_array] at hla hlb
    rw [Ty.leaf, Ty.leaf, hleaf]
    exact dotProduct_matrices_gives hca hcb hla hlb hs hl hr

theorem Value.numberType_of_leaf {p : Typed.Program} {m : Machine} {w : Value} {c L : Ty}
    (h : w.conforms p m c = true) (hL : Typing.numericLeaf c = some L) (hnull : w ≠ .null)
    (harray : ∀ a, w ≠ .array a) : w.numberType? = some L := by
  rcases Ty.eq_array_or c with ⟨c', rfl⟩ | hc
  · rcases Value.conforms_array_type h with rfl | ⟨a, -, rfl, -⟩
    · exact absurd rfl hnull
    · exact absurd rfl (harray a)
  · rcases Value.numberOrNull_of_conforms (Ty.depth_eq_zero hc) hL h with hw | hw
    · exact absurd hw hnull
    · exact hw

/-- The faults `sum` and `avg` stop with on arrays that fit their types. -/
def NullFault (f : Fault) : Prop := ∃ context, f = .nullPointer context

theorem sumLeaves_gives {p : Typed.Program} {m : Machine} {L : Ty} (hL : L = .int ∨ L = .float) :
    ∀ (fuel : Nat) {c : Ty} {items : Array Value}, (∀ w ∈ items, w.conforms p m c = true) →
      (∀ w ∈ items, ¬ w.Nested m fuel) → Typing.numericLeaf c = some L →
      Op.Gives (sumLeaves p (L == .float) (fuel + 1) items) m
        (fun v m' => m' = m ∧ v.numberType? = some L) NullFault := by
  intro fuel
  induction fuel with
  | zero =>
    intro c items _ hn _
    obtain rfl : items = #[] := Array.eq_empty_iff_forall_not_mem.mpr fun w hw => hn w hw trivial
    rw [sumLeaves, Array.foldlM_empty]
    exact .pure ⟨rfl, zeroOf_numberType hL⟩
  | succ fuel ih =>
    intro c items hc hn hc'
    rw [sumLeaves]
    refine array_foldlM
      (I := fun (acc : Value) (m' : Machine) => m' = m ∧ acc.numberType? = some L)
      items _ ⟨rfl, zeroOf_numberType hL⟩ fun w hw acc m' _ ⟨hm, hacc⟩ => ?_
    subst hm
    dsimp only
    split
    · rename_i a
      obtain ⟨c', rfl⟩ := Value.eq_array_of_conforms (hc _ hw)
      obtain ⟨inner, hinner, hall⟩ := Value.conforms_array_iff.mp (hc _ hw)
      refine (arrayItems_gives "" hinner).bind ?_
      rintro _ m₁ - ⟨rfl, rfl⟩
      refine (ih hall (Value.not_nested_of_mem (hn _ hw) hinner) hc').bind ?_
      rintro v m₂ - ⟨rfl, hv⟩
      exact arithmeticOn_add_gives hacc hv
    · exact throw_bind ⟨_, rfl⟩
    · rename_i harray hnull
      rw [pure_bind]
      exact arithmeticOn_add_gives hacc
        (Value.numberType_of_leaf (hc _ hw) hc' (fun h => hnull h) fun a h => harray a h)

theorem countLeaves_gives {p : Typed.Program} {m : Machine} :
    ∀ (fuel : Nat) {c : Ty} (depth : Nat) {items : Array Value},
      (∀ w ∈ items, w.conforms p m c = true) → (∀ w ∈ items, ¬ w.Nested m fuel) →
      Op.Gives (countLeaves (fuel + 1) depth items) m (fun _ m' => m' = m) NullFault := by
  intro fuel
  induction fuel with
  | zero =>
    intro c depth items _ hn
    obtain rfl : items = #[] := Array.eq_empty_iff_forall_not_mem.mpr fun w hw => hn w hw trivial
    rw [countLeaves, Array.foldlM_empty]
    exact .pure rfl
  | succ fuel ih =>
    intro c depth items hc hn
    rw [countLeaves]
    refine array_foldlM (I := fun (_ : Nat) (m' : Machine) => m' = m) items _ rfl
      fun w hw total m' _ hm => ?_
    subst hm
    split
    · rename_i a
      obtain ⟨c', rfl⟩ := Value.eq_array_of_conforms (hc _ hw)
      obtain ⟨inner, hinner, hall⟩ := Value.conforms_array_iff.mp (hc _ hw)
      refine (arrayItems_gives "" hinner).bind ?_
      rintro _ m₁ - ⟨rfl, rfl⟩
      refine (ih (depth - 1) hall (Value.not_nested_of_mem (hn _ hw) hinner)).bind ?_
      rintro n m₂ - rfl
      exact .pure rfl
    · split
      · exact throw ⟨_, rfl⟩
      · exact .pure rfl
    · exact .pure rfl

theorem Typing.numericLeaf_isNumber {t L : Ty} (h : Typing.numericLeaf t = some L) :
    L = .int ∨ L = .float := by
  unfold Typing.numericLeaf at h
  split at h <;> cases h <;> simp

theorem Typing.leaf_beq_float {t L : Ty} (h : Typing.numericLeaf t = some L) :
    (t.leaf == .float) = (L == .float) := by
  unfold Typing.numericLeaf at h
  split at h <;> cases h <;> (simp_all; try rfl)

theorem arithmetic_div_int (text : Value → String) {l : Value} {L : Ty}
    (hl : l.numberType? = some L) {y : Int64} (hy : y ≠ 0) :
    ∃ v, arithmetic text .div l (.int y) false = .ok v ∧ v.numberType? = some L := by
  rcases Value.numberType?_eq_some hl with ⟨x, rfl, rfl⟩ | ⟨x, rfl, rfl⟩
  · exact ⟨.int (x / y), by simp [arithmetic, hy], rfl⟩
  · exact ⟨_, rfl, rfl⟩

theorem property_gives {p : Typed.Program} {A L : Ty} {prop : Typed.Property} {a : Value}
    {m : Machine} (hA : 0 < A.depth) (hL : Typing.numericLeaf A = some L)
    (hprop : prop = .sum ∨ prop = .avg) (ha : a.conforms p m A = true) :
    Op.Gives (property p a prop A) m (fun v _ => v.numberType? = some L) NullFault := by
  obtain ⟨c, rfl, -⟩ := Ty.eq_array_of_depth (t := A) (k := A.depth - 1) (by omega)
  have hLnum := Typing.numericLeaf_isNumber hL
  unfold property
  rcases Value.conforms_array_type ha with rfl | ⟨addr, items, rfl, hitems, hall⟩
  · exact of_run_error rfl ⟨_, rfl⟩
  refine (arrayItems_gives _ hitems).bind ?_
  rintro _ m₁ - ⟨rfl, hm⟩
  subst m₁
  refine Op.Gives.get.bind ?_
  rintro m₀ m₁ - ⟨hm₀, hm⟩
  subst m₀ m₁
  have hn := Value.not_nested_of_mem (Value.conforms.not_nested ha) hitems
  have hsum := sumLeaves_gives hLnum _ hall hn hL
  rw [Typing.leaf_beq_float hL]
  rcases hprop with rfl | rfl
  · exact hsum.mono (fun _ _ _ h => h.2) fun _ h => h
  · refine hsum.bind ?_
    rintro total m₁ - ⟨hm, htotal⟩
    subst m₁
    refine (countLeaves_gives _ _ hall hn).bind ?_
    rintro count m₁ - hm
    subst m₁
    dsimp only
    split
    · exact .pure (zeroOf_numberType hLnum)
    · rename_i hcount
      obtain ⟨v, hv, hvt⟩ := arithmetic_div_int (render p m) htotal hcount
      refine (arithmeticOn_gives .div total _ false fun f hf => ?_).mono ?_ fun _ h => h
      · rw [hv] at hf
        cases hf
      · rintro w _ - ⟨-, hw⟩
        rw [hv] at hw
        cases hw
        exact hvt

/-- The array operators at run time agree with the types the checker gives them. On operands that
fit their static types (with `null` anywhere): element-wise `+ - * /` gives a dense array of the
result type, with floats and strings where its leaf says, or stops on a `null`, a division by zero
or arrays of different lengths; `@` gives a value of the result type or stops on a `null` or a
shape mismatch; `sum` and `avg` give a number of the kind of the array's leaves or stop on a
`null`. -/
theorem array_operators_fit_types (p : Typed.Program) (m : Machine) :
    (∀ (op : BinOp) (A B T : Ty) (l r : Value),
      (op = .add ∨ op = .sub ∨ op = .mul ∨ op = .div) →
      Typing.elementWiseType op A B = some T → l.conforms p m A = true →
      r.conforms p m B = true →
      Op.Gives (elementWise p op l r) m (fun v m' => v.conforms p m' T = true ∧ v.Dense m' T)
        (ElementWiseFault op)) ∧
    (∀ (A B T : Ty) (l r : Value), Typing.dotProductType A B = some T →
      l.conforms p m A = true → r.conforms p m B = true →
      ∃ shape, Typed.DotShape.ofDepths? A.depth B.depth = some shape ∧
        Op.Gives (dotProduct p l r shape (T.leaf == .float)) m
          (fun v m' => v.conforms p m' T = true ∧ v.Dense m' T) DotFault) ∧
    (∀ (A L : Ty) (prop : Typed.Property) (a : Value), 0 < A.depth →
      Typing.numericLeaf A = some L → (prop = .sum ∨ prop = .avg) →
      a.conforms p m A = true →
      Op.Gives (property p a prop A) m (fun v _ => v.numberType? = some L) NullFault) := by
  refine ⟨fun op A B T l r hop hT hl hr => ?_, fun A B T l r hT hl hr => ?_,
    fun A L prop a hA hL hprop ha => property_gives hA hL hprop ha⟩
  · exact (elementWise_gives hop hT hl hr).mono (fun v m' _ h => ⟨h.conforms, h⟩) fun _ h => h
  · obtain ⟨shape, hshape⟩ := Typing.dotProductType_shape hT
    exact ⟨shape, hshape, (dotProduct_gives hT hshape hl hr).mono
      (fun v m' _ h => ⟨h.conforms, h⟩) fun _ h => h⟩

theorem int_pair_operators_fit_types :
    (Value.array 0).conforms default intPairMachine (.array .int) = true ∧
      (Value.array 1).conforms default intPairMachine (.array .int) = true ∧
      Op.Gives (elementWise default .add (.array 0) (.array 1)) intPairMachine
        (fun v m' => v.conforms default m' (.array .int) = true ∧ v.Dense m' (.array .int))
        (ElementWiseFault .add) ∧
      (∃ shape, Typed.DotShape.ofDepths? 1 1 = some shape ∧
        Op.Gives (dotProduct default (.array 0) (.array 1) shape false) intPairMachine
          (fun v m' => v.conforms default m' .int = true ∧ v.Dense m' .int) DotFault) ∧
      Op.Gives (property default (.array 0) .sum (.array .int)) intPairMachine
        (fun v _ => v.numberType? = some .int) NullFault := by
  have h₀ : (Value.array 0).conforms default intPairMachine (.array .int) = true := by
    decide +kernel
  have h₁ : (Value.array 1).conforms default intPairMachine (.array .int) = true := by
    decide +kernel
  have hsum : Typing.elementWiseType .add (.array .int) (.array .int) = some (.array .int) := rfl
  have hdot : Typing.dotProductType (.array .int) (.array .int) = some .int := rfl
  have hleaf : Typing.numericLeaf (.array .int) = some .int := rfl
  obtain ⟨hew, hdp, hprop⟩ := array_operators_fit_types default intPairMachine
  refine ⟨h₀, h₁, hew .add _ _ _ _ _ (.inl rfl) hsum h₀ h₁, ?_,
    hprop _ _ .sum _ (by decide) hleaf (.inl rfl) h₀⟩
  exact hdp _ _ _ _ _ hdot h₀ h₁

end Sigh
