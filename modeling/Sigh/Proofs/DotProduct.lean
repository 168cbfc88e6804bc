import Sigh.Proofs.Gives

namespace Sigh

/-- The exact sum of the products of corresponding integers. -/
def intDot (xs ys : List Int64) : Int :=
  (List.zipWith (fun a b => a.toInt * b.toInt) xs ys).sum

@[simp] theorem intDot_nil_left (ys : List Int64) : intDot [] ys = 0 := rfl

@[simp] theorem intDot_nil_right (xs : List Int64) : intDot xs [] = 0 := by
  cases xs <;> rfl

@[simp] theorem intDot_cons (a b : Int64) (xs ys : List Int64) :
    intDot (a :: xs) (b :: ys) = a.toInt * b.toInt + intDot xs ys := by
  simp [intDot]

theorem intDot_eq_sum : ∀ {xs ys : List Int64}, xs.length = ys.length →
    intDot xs ys = ∑ k ∈ Finset.range xs.length, (xs.getD k 0).toInt * (ys.getD k 0).toInt
  | [], [], _ => rfl
  | a :: xs, b :: ys, h => by
    rw [intDot_cons, intDot_eq_sum (Nat.succ.inj h), List.length_cons, Finset.sum_range_succ']
    simp [add_comm]

section Products

variable (p : Typed.Program) (m : Machine)

theorem multiplyAdd_ints (c a b : Int64) :
    (multiplyAdd p (.int c) (.int a) (.int b)).run.run m = (.ok (.int (c + a * b)), m) := by
  unfold multiplyAdd
  rw [Op.run_bind_ok (arithmeticOn_run _ _ _ _ m), arithmeticOn_run]
  rfl

theorem foldlM_multiplyAdd_ints :
    ∀ (xs ys : List Int64) (c : Int64),
      (((xs.map Value.int).zip (ys.map Value.int)).foldlM (fun acc (a, b) => multiplyAdd p acc a b)
        (Value.int c)).run.run m = (.ok (.int (c + Int64.ofInt (intDot xs ys))), m)
  | [], _, c => by simp; rfl
  | _ :: _, [], c => by simp; rfl
  | a :: xs, b :: ys, c => by
    rw [List.map_cons, List.map_cons, List.zip_cons_cons, List.foldlM_cons,
      Op.run_bind_ok (multiplyAdd_ints p m c a b), foldlM_multiplyAdd_ints xs ys]
    simp [Int64.add_assoc]

theorem sumOfProducts_ints (xs ys : List Int64) :
    (sumOfProducts p false ((xs.map Value.int).zip (ys.map Value.int))).run.run m =
      (.ok (.int (Int64.ofInt (intDot xs ys))), m) := by
  unfold sumOfProducts zeroOf
  rw [if_neg Bool.false_ne_true, Op.run_bind_ok (foldlM_multiplyAdd_ints p m xs ys 0)]
  simp
  rfl

end Products

/-- The length of the first row, or `d` when there are no rows. -/
def firstWidth {α : Type} (d : Nat) (rows : List (List α)) : Nat :=
  (rows.head?.map List.length).getD d

/-- Every row has the length of the first. -/
def Rectangular {α : Type} (rows : List (List α)) : Prop :=
  ∀ row ∈ rows, row.length = firstWidth 0 rows

instance {α : Type} (rows : List (List α)) : Decidable (Rectangular rows) :=
  inferInstanceAs (Decidable (∀ row ∈ rows, _))

/-- The product of two integer matrices given by their rows, wrapped to 64 bits: entry `(i, j)`
is the exact sum over `k` of `A[i][k] * B[k][j]`, for the columns of the first row of `B`. -/
def intMatMul (as bs : List (List Int64)) : List (List Int64) :=
  as.map fun row => (List.range (firstWidth 0 bs)).map fun j =>
    Int64.ofInt (intDot row (bs.map fun b => b.getD j 0))

/-- The elements of an integer row. -/
def intItems (row : List Int64) : Array Value := (row.map Value.int).toArray

@[simp] theorem intItems_size (row : List Int64) : (intItems row).size = row.length := by
  simp [intItems]

@[simp] theorem intItems_toList (row : List Int64) : (intItems row).toList = row.map Value.int :=
  rfl

namespace Value

/-- `v` is an array of the integers `xs` on `m`. -/
def IntArray (m : Machine) (v : Value) (xs : List Int64) : Prop :=
  ∃ a, v = .array a ∧ m.items? a = some (intItems xs)

/-- `v` is an array of arrays of integers, whose rows are `rows` on `m`. -/
def IntMatrix (m : Machine) (v : Value) (rows : List (List Int64)) : Prop :=
  ∃ a ws, v = .array a ∧ m.items? a = some ws.toArray ∧ List.Forall₂ (IntArray m) ws rows

end Value

/-- `m` with the integer matrix `rows` stored after its objects: each row in turn, then the array
of the rows. -/
def Machine.storeIntMatrix (m : Machine) (rows : List (List Int64)) : Machine :=
  { m with
    objects := Array.push (m.objects ++ (rows.map fun row => Object.array (intItems row)).toArray)
      (.array ((List.range rows.length).map fun i => .array (m.objects.size + i)).toArray) }

namespace Machine

theorem grows_storeIntMatrix (m : Machine) (rows : List (List Int64)) :
    m.Grows (m.storeIntMatrix rows) := by
  intro a o h
  have ha := (Array.getElem?_eq_some_iff.mp h).1
  rw [storeIntMatrix, Array.getElem?_push, if_neg (by simp; omega),
    Array.getElem?_append_left ha]
  exact h

theorem storeIntMatrix_intMatrix (m : Machine) (rows : List (List Int64)) :
    (Value.array (m.objects.size + rows.length)).IntMatrix (m.storeIntMatrix rows) rows := by
  refine ⟨_, (List.range rows.length).map fun i => .array (m.objects.size + i), rfl, ?_, ?_⟩
  · simp [items?, storeIntMatrix]
  · refine List.forall₂_of_length_eq_of_get (by simp) fun i h₁ h₂ =>
      ⟨m.objects.size + i, by simp, ?_⟩
    have hlt : m.objects.size + i < (m.objects ++
        (rows.map fun row => Object.array (intItems row)).toArray).size := by
      simp only [Array.size_append, List.size_toArray, List.length_map]
      omega
    rw [items?, storeIntMatrix, Array.getElem?_push_lt hlt,
      Array.getElem_append_right (Nat.le_add_right _ _)]
    simp [intItems]

end Machine

section Rows

variable {m : Machine}

theorem arrayItems_intArray {w : Value} {row : List Int64} (h : w.IntArray m row)
    (context : String) : (arrayItems w context).run.run m = (.ok (intItems row), m) := by
  obtain ⟨a, rfl, ha⟩ := h
  exact arrayItems_array context ha

theorem mapM_arrayItems_intArrays (context : String) :
    ∀ {ws : List Value} {rows : List (List Int64)}, List.Forall₂ (Value.IntArray m) ws rows →
      (ws.mapM fun w => arrayItems w context).run.run m = (.ok (rows.map intItems), m)
  | [], [], .nil => rfl
  | _ :: _, _ :: _, .cons hw hws => by
    rw [List.mapM_cons, Op.run_bind_ok (arrayItems_intArray hw context),
      Op.run_bind_ok (mapM_arrayItems_intArrays context hws)]
    rfl

theorem matrixRows_intMatrix {v : Value} {rows : List (List Int64)} (h : v.IntMatrix m rows) :
    (matrixRows v).run.run m =
      if Rectangular rows then (.ok (rows.map intItems).toArray, m)
      else (.error (.shapeMismatch "matrix rows have different lengths"), m) := by
  obtain ⟨a, ws, rfl, ha, hws⟩ := h
  unfold matrixRows
  rw [Op.run_bind_ok (arrayItems_array _ ha), Array.mapM_eq_mapM_toList, List.toList_toArray,
    Op.run_bind_ok (Op.run_map_ok (mapM_arrayItems_intArrays _ hws))]
  cases rows with
  | nil => rfl
  | cons first rest =>
    have hrect : Rectangular (first :: rest) ↔ ∀ row ∈ rest, row.length = first.length := by
      simp [Rectangular, firstWidth]
    by_cases hr : ∀ row ∈ rest, row.length = first.length
    · simp [intItems, hrect.mpr hr]
      rw [if_neg fun ⟨x, hx, hne⟩ => hne (hr x hx)]
      rfl
    · simp [intItems, mt hrect.mp hr]
      rw [if_pos (by simpa using hr)]
      rfl

theorem matrixRows_rectangular {v : Value} {m' : Machine} {rows : Array (Array Value)}
    (h : (matrixRows v).run.run m = (.ok rows, m')) :
    ∀ row ∈ rows, row.size = (rows[0]?.map (·.size)).getD 0 := by
  unfold matrixRows at h
  obtain ⟨_, _, -, h⟩ := Op.bind_ok h
  obtain ⟨rows', m₂, -, h⟩ := Op.bind_ok h
  split at h
  · rename_i first hfirst
    split at h
    · cases h
    · rename_i hany
      change (Except.ok rows', m₂) = (Except.ok rows, m') at h
      cases h
      intro row hrow
      obtain ⟨i, hi, rfl⟩ := Array.mem_iff_getElem.mp hrow
      rw [hfirst, Option.map_some, Option.getD_some]
      simp only [Array.any_eq_true, decide_eq_true_eq, not_exists, not_not] at hany
      exact hany i hi
  · rename_i hnone
    change (Except.ok rows', m₂) = (Except.ok rows, m') at h
    cases h
    intro row hrow
    have hsize := Array.getElem?_eq_none_iff.mp hnone
    have hpos := Array.size_pos_of_mem hrow
    omega

theorem matrixRows_column_in_bounds {v : Value} {m' : Machine} {rows : Array (Array Value)}
    (h : (matrixRows v).run.run m = (.ok rows, m')) (hw : (rows[0]?.map (·.size)).getD 1 = 1) :
    ∀ row ∈ rows, 0 < row.size := by
  intro row hrow
  have hsize := matrixRows_rectangular h row hrow
  rw [Array.getElem?_eq_getElem (Array.size_pos_of_mem hrow)] at hsize hw
  simp only [Option.map_some, Option.getD_some] at hsize hw
  omega

theorem matrixRows_product_in_bounds {l r : Value} {m₁ m₂ : Machine} {ls rs : Array (Array Value)}
    (hl : (matrixRows l).run.run m = (.ok ls, m₁)) (hr : (matrixRows r).run.run m₁ = (.ok rs, m₂))
    (hinner : (ls[0]?.map (·.size)).getD 0 = rs.size) :
    (∀ row ∈ ls, row.size = rs.size) ∧
      ∀ rrow ∈ rs, ∀ column < (rs[0]?.map (·.size)).getD 0, column < rrow.size := by
  refine ⟨fun row hrow => (matrixRows_rectangular hl row hrow).trans hinner, ?_⟩
  intro rrow hrrow column hcolumn
  rw [matrixRows_rectangular hr rrow hrrow]
  exact hcolumn

theorem firstWidth_intItems (d : Nat) (rows : List (List Int64)) :
    (((rows.map intItems).toArray[0]?).map (·.size)).getD d = firstWidth d rows := by
  cases rows <;> simp [firstWidth, intItems]

theorem Rectangular.length_eq {α : Type} {rows : List (List α)} (h : Rectangular rows)
    {row : List α} (hrow : row ∈ rows) (d : Nat) : row.length = firstWidth d rows := by
  cases rows with
  | nil => cases hrow
  | cons first rest => simpa [firstWidth] using h row hrow

theorem column_intItems {rows : List (List Int64)} {j : Nat} (h : ∀ row ∈ rows, j < row.length) :
    (rows.map intItems).map (fun row => row.getD j .null) =
      (rows.map fun row => row.getD j 0).map Value.int := by
  simp only [List.map_map]
  refine List.map_congr_left fun row hrow => ?_
  simp [intItems, h row hrow]

theorem newArray_run (items : Array Value) (m : Machine) :
    (newArray items).run.run m =
      (.ok (.array m.objects.size), { m with objects := m.objects.push (.array items) }) := rfl

theorem mapM_newArray_run {α β : Type} {f : α → Op β} {g : α → β} {h : β → Array Value} :
    ∀ {xs : List α}, (∀ x ∈ xs, ∀ m : Machine, (f x).run.run m = (.ok (g x), m)) →
      ∀ m : Machine, (xs.mapM fun x => f x >>= fun out => newArray (h out)).run.run m =
        (.ok ((List.range xs.length).map fun i => .array (m.objects.size + i)),
          { m with objects := m.objects ++ (xs.map fun x => Object.array (h (g x))).toArray })
  | [], _, m => by simp; rfl
  | x :: xs, hf, m => by
    have hx : (f x >>= fun out => newArray (h out)).run.run m =
        (.ok (.array m.objects.size), { m with objects := m.objects.push (.array (h (g x))) }) := by
      rw [Op.run_bind_ok (hf x List.mem_cons_self m), newArray_run]
    rw [List.mapM_cons, Op.run_bind_ok hx,
      Op.run_bind_ok (mapM_newArray_run (fun y hy => hf y (List.mem_cons_of_mem x hy)) _)]
    simp [List.range_succ_eq_map, Function.comp_def, Nat.add_comm, Nat.add_left_comm]
    rfl

end Rows

section Shapes

variable (p : Typed.Program) {m : Machine} {l r : Value}

theorem dotProduct_vectors_ints {xs ys : List Int64} (hl : l.IntArray m xs)
    (hr : r.IntArray m ys) :
    (dotProduct p l r .vectors false).run.run m =
      if xs.length = ys.length then (.ok (.int (Int64.ofInt (intDot xs ys))), m)
      else (.error (.shapeMismatch ("dot product of vectors of length " ++ toString xs.length ++
        " and " ++ toString ys.length)), m) := by
  unfold dotProduct
  rw [Op.run_bind_ok (arrayItems_intArray hl _), Op.run_bind_ok (arrayItems_intArray hr _)]
  simp only [intItems_size, intItems_toList]
  by_cases h : xs.length = ys.length
  · rw [if_neg (not_not_intro h), if_pos h, sumOfProducts_ints]
  · rw [if_pos h, if_neg h]
    rfl

theorem dotProduct_vectorByColumn_ints {xs : List Int64} {bs : List (List Int64)}
    (hl : l.IntArray m xs) (hr : r.IntMatrix m bs) :
    (dotProduct p l r .vectorByColumn false).run.run m =
      if Rectangular bs then
        if xs.length = bs.length ∧ firstWidth 1 bs = 1 then
          (.ok (.int (Int64.ofInt (intDot xs (bs.map fun b => b.getD 0 0)))), m)
        else (.error (.shapeMismatch ("dot product of a vector of length " ++ toString xs.length ++
          " and a " ++ toString bs.length ++ "x" ++ toString (firstWidth 1 bs) ++ " matrix")), m)
      else (.error (.shapeMismatch "matrix rows have different lengths"), m) := by
  have hrows := matrixRows_intMatrix hr
  unfold dotProduct
  rw [Op.run_bind_ok (arrayItems_intArray hl _)]
  by_cases hrect : Rectangular bs
  · rw [if_pos hrect] at hrows
    rw [Op.run_bind_ok hrows, if_pos hrect]
    simp only [firstWidth_intItems, intItems_size, intItems_toList, List.size_toArray,
      List.length_map]
    by_cases hc : xs.length = bs.length ∧ firstWidth 1 bs = 1
    · have hcol : ∀ b ∈ bs, 0 < b.length := fun b hb => by
        rw [hrect.length_eq hb 1, hc.2]
        exact Nat.one_pos
      rw [if_neg (by simp only [Bool.or_eq_true, decide_eq_true_eq]; omega), if_pos hc,
        column_intItems hcol, sumOfProducts_ints]
    · rw [if_pos (by simp only [Bool.or_eq_true, decide_eq_true_eq]; omega), if_neg hc]
      rfl
  · rw [if_neg hrect] at hrows
    rw [Op.run_bind_error hrows, if_neg hrect]

theorem productRow_ints {bs : List (List Int64)} (hb : Rectangular bs) (a : List Int64)
    (m' : Machine) :
    ((List.range (firstWidth 0 bs)).mapM fun column => sumOfProducts p false
      ((intItems a).toList.zip ((bs.map intItems).map fun rrow => rrow.getD column .null))).run.run m' =
    (.ok ((List.range (firstWidth 0 bs)).map fun j =>
      .int (Int64.ofInt (intDot a (bs.map fun b => b.getD j 0)))), m') := by
  refine Op.run_mapM_of_forall fun j hj => ?_
  have hcol : ∀ b ∈ bs, j < b.length := fun b hb' => by
    rw [hb.length_eq hb' 0]
    exact List.mem_range.mp hj
  rw [column_intItems hcol, intItems_toList, sumOfProducts_ints]

theorem dotProduct_matrices_ints {as bs : List (List Int64)} (hl : l.IntMatrix m as)
    (hr : r.IntMatrix m bs) :
    (dotProduct p l r .matrices false).run.run m =
      if Rectangular as ∧ Rectangular bs then
        if firstWidth 0 as = bs.length then
          (.ok (.array (m.objects.size + as.length)), m.storeIntMatrix (intMatMul as bs))
        else (.error (.shapeMismatch ("matrix product of " ++ toString as.length ++ "x" ++
          toString (firstWidth 0 as) ++ " and " ++ toString bs.length ++ "x" ++
          toString (firstWidth 0 bs) ++ " matrices")), m)
      else (.error (.shapeMismatch "matrix rows have different lengths"), m) := by
  have hls := matrixRows_intMatrix hl
  have hrs := matrixRows_intMatrix hr
  unfold dotProduct
  by_cases ha : Rectangular as
  swap
  · rw [if_neg ha] at hls
    rw [Op.run_bind_error hls, if_neg fun h => ha h.1]
  rw [if_pos ha] at hls
  rw [Op.run_bind_ok hls]
  by_cases hb : Rectangular bs
  swap
  · rw [if_neg hb] at hrs
    rw [Op.run_bind_error hrs, if_neg fun h => hb h.2]
  rw [if_pos hb] at hrs
  rw [Op.run_bind_ok hrs, if_pos (show Rectangular as ∧ Rectangular bs from ⟨ha, hb⟩)]
  simp only [firstWidth_intItems, List.size_toArray, List.length_map]
  by_cases hinner : firstWidth 0 as = bs.length
  · rw [if_neg (not_not_intro hinner), if_pos hinner]
    simp only [List.mapM_toArray, List.mapM_map, Function.comp_def]
    rw [Op.run_bind_ok (Op.run_map_ok
      (mapM_newArray_run (fun a _ => productRow_ints p hb a) m))]
    rw [newArray_run]
    simp [Machine.storeIntMatrix, intMatMul, intItems, Function.comp_def]
  · rw [if_pos hinner, if_neg hinner]
    rfl

end Shapes

/-- `@` on integers computes exact sums of products wrapped to 64 bits: on two vectors when their
lengths agree, on a vector and a one-column matrix when the matrix is rectangular and as high as
the vector is long, and on two rectangular matrices whose inner dimensions agree, where the product
is stored as new arrays; every other shape is a shape mismatch. Whatever the values, the checks made
before the loops keep the indices the loops read within the rows. -/
theorem integer_dot_products_wrap_exact_sums (p : Typed.Program) (m : Machine) :
    (∀ (l r : Value) (xs ys : List Int64), l.IntArray m xs → r.IntArray m ys →
      (dotProduct p l r .vectors false).run.run m =
        if xs.length = ys.length then (.ok (.int (Int64.ofInt (intDot xs ys))), m)
        else (.error (.shapeMismatch ("dot product of vectors of length " ++ toString xs.length ++
          " and " ++ toString ys.length)), m)) ∧
    (∀ (l r : Value) (xs : List Int64) (bs : List (List Int64)), l.IntArray m xs →
      r.IntMatrix m bs →
      (dotProduct p l r .vectorByColumn false).run.run m =
        if Rectangular bs then
          if xs.length = bs.length ∧ firstWidth 1 bs = 1 then
            (.ok (.int (Int64.ofInt (intDot xs (bs.map fun b => b.getD 0 0)))), m)
          else (.error (.shapeMismatch ("dot product of a vector of length " ++
            toString xs.length ++ " and a " ++ toString bs.length ++ "x" ++
            toString (firstWidth 1 bs) ++ " matrix")), m)
        else (.error (.shapeMismatch "matrix rows have different lengths"), m)) ∧
    (∀ (l r : Value) (as bs : List (List Int64)), l.IntMatrix m as → r.IntMatrix m bs →
      (dotProduct p l r .matrices false).run.run m =
        if Rectangular as ∧ Rectangular bs then
          if firstWidth 0 as = bs.length then
            (.ok (.array (m.objects.size + as.length)), m.storeIntMatrix (intMatMul as bs))
          else (.error (.shapeMismatch ("matrix product of " ++ toString as.length ++ "x" ++
            toString (firstWidth 0 as) ++ " and " ++ toString bs.length ++ "x" ++
            toString (firstWidth 0 bs) ++ " matrices")), m)
        else (.error (.shapeMismatch "matrix rows have different lengths"), m)) ∧
    (∀ (r : Value) (m' : Machine) (rows : Array (Array Value)),
      (matrixRows r).run.run m = (.ok rows, m') → (rows[0]?.map (·.size)).getD 1 = 1 →
        ∀ row ∈ rows, 0 < row.size) ∧
    (∀ (l r : Value) (m₁ m₂ : Machine) (ls rs : Array (Array Value)),
      (matrixRows l).run.run m = (.ok ls, m₁) → (matrixRows r).run.run m₁ = (.ok rs, m₂) →
      (ls[0]?.map (·.size)).getD 0 = rs.size →
        (∀ row ∈ ls, row.size = rs.size) ∧
          ∀ rrow ∈ rs, ∀ column < (rs[0]?.map (·.size)).getD 0, column < rrow.size) :=
  ⟨fun _ _ _ _ hl hr => dotProduct_vectors_ints p hl hr,
    fun _ _ _ _ hl hr => dotProduct_vectorByColumn_ints p hl hr,
    fun _ _ _ _ hl hr => dotProduct_matrices_ints p hl hr,
    fun _ _ _ h hw => matrixRows_column_in_bounds h hw,
    fun _ _ _ _ _ _ hl hr hinner => matrixRows_product_in_bounds hl hr hinner⟩

/-- Two rows of two integers, the only objects of the heap. -/
def intPairMachine : Machine := ⟨#[.array #[.int 1, .int 2], .array #[.int 3, .int 4]], #[], ""⟩

theorem dot_product_of_int_pair :
    (Value.array 0).IntArray intPairMachine [1, 2] ∧ (Value.array 1).IntArray intPairMachine [3, 4] ∧
      (dotProduct default (.array 0) (.array 1) .vectors false).run.run intPairMachine =
        (.ok (.int 11), intPairMachine) := by
  have h₁ : (Value.array 0).IntArray intPairMachine [1, 2] := ⟨0, rfl, rfl⟩
  have h₂ : (Value.array 1).IntArray intPairMachine [3, 4] := ⟨1, rfl, rfl⟩
  refine ⟨h₁, h₂, ?_⟩
  rw [(integer_dot_products_wrap_exact_sums default intPairMachine).1 _ _ _ _ h₁ h₂]
  rfl

end Sigh
