import Mathlib
import Sigh.Source

namespace Sigh

/-- Each element is at most every later one. -/
def Ascending (xs : Array Nat) : Prop :=
  ∀ i j, i ≤ j → j < xs.size → xs.getD i 0 ≤ xs.getD j 0

/-- Each element is below every later one. -/
def StrictlyAscending (xs : Array Nat) : Prop :=
  ∀ i j, i < j → j < xs.size → xs.getD i 0 < xs.getD j 0

theorem StrictlyAscending.of_pairwise {xs : Array Nat} (h : xs.toList.Pairwise (· < ·)) :
    StrictlyAscending xs := by
  intro i j hij hj
  have hp := List.pairwise_iff_getElem.mp h i j (by simp; omega) (by simpa using hj) hij
  simpa [Array.getD_eq_getD_getElem?, Array.getElem?_eq_getElem (Nat.lt_trans hij hj),
    Array.getElem?_eq_getElem hj] using hp

theorem StrictlyAscending.ascending {xs : Array Nat} (h : StrictlyAscending xs) : Ascending xs := by
  intro i j hij hj
  rcases Nat.lt_or_eq_of_le hij with hlt | rfl
  · exact Nat.le_of_lt (h i j hlt hj)
  · exact Nat.le_refl _

section Search

variable {xs : Array Nat} {x : Nat}

/-- The window of `size` elements from `base` lies in the array, and `x` goes at or after its
first element and before every element past it. -/
structure Window (xs : Array Nat) (x base size : Nat) : Prop where
  within : base + size ≤ xs.size
  nonempty : 0 < size
  low : base = 0 ∨ xs.getD base 0 ≤ x
  high : ∀ j, base + size ≤ j → j < xs.size → x < xs.getD j 0

theorem Window.halve (hs : Ascending xs) {base size : Nat} (hw : Window xs x base size)
    (hsize : 1 < size) :
    Window xs x (if x < xs.getD (base + size / 2) 0 then base else base + size / 2)
      (size - size / 2) := by
  have hw1 := hw.within
  split
  next hlt =>
    refine ⟨by omega, by omega, hw.low, fun j hj hjn => ?_⟩
    exact Nat.lt_of_lt_of_le hlt (hs _ _ (by omega) hjn)
  next hge =>
    refine ⟨by omega, by omega, .inr (Nat.le_of_not_lt hge), fun j hj hjn => ?_⟩
    exact hw.high j (by omega) hjn

theorem Window.narrow (hs : Ascending xs) {base size : Nat} (hw : Window xs x base size) :
    Window xs x (binarySearch.narrow xs x base size) 1 := by
  fun_induction binarySearch.narrow xs x base size with
  | case1 base size hsize half mid ih => exact ih (hw.halve hs hsize)
  | case2 base size hsize =>
    have : size = 1 := by have := hw.nonempty; omega
    exact this ▸ hw

theorem Window.whole (h : xs.size ≠ 0) : Window xs x 0 xs.size :=
  ⟨by omega, Nat.pos_of_ne_zero h, .inl rfl, fun j hj hjn => absurd hjn (by omega)⟩

theorem binarySearch_ok (hs : Ascending xs) {i : Nat} (h : binarySearch xs x = .ok i) :
    i < xs.size ∧ xs.getD i 0 = x := by
  unfold binarySearch at h
  split at h
  next => cases h
  next hn =>
    have hw := (Window.whole (x := x) hn).narrow hs
    dsimp only at h
    split at h
    next heq =>
      cases h
      exact ⟨by have := hw.within; omega, heq⟩
    next => cases h

theorem binarySearch_error (hs : Ascending xs) {i : Nat} (h : binarySearch xs x = .error i) :
    i ≤ xs.size ∧ (∀ j, j < i → xs.getD j 0 < x) ∧
      ∀ j, i ≤ j → j < xs.size → x < xs.getD j 0 := by
  unfold binarySearch at h
  split at h
  next hn =>
    cases h
    exact ⟨Nat.zero_le _, fun j hj => absurd hj (Nat.not_lt_zero j), fun j _ hj => by omega⟩
  next hn =>
    have hw := (Window.whole (x := x) hn).narrow hs
    have hin := hw.within
    dsimp only at h
    split at h
    next => cases h
    next hne =>
      split at h
      next hlt =>
        cases h
        refine ⟨hin, fun j hj => ?_, hw.high⟩
        exact Nat.lt_of_le_of_lt (hs _ _ (by omega) (by omega)) hlt
      next hge =>
        cases h
        have hbase : binarySearch.narrow xs x 0 xs.size = 0 :=
          hw.low.resolve_right fun hle => hne (Nat.le_antisymm hle (Nat.le_of_not_lt hge))
        refine ⟨by omega, fun j hj => absurd hj (by omega), fun j hj hjn => ?_⟩
        rcases Nat.lt_or_eq_of_le hj with hlt | rfl
        · exact hw.high j (by omega) hjn
        · exact Nat.lt_of_le_of_ne (Nat.le_of_not_lt hge) (Ne.symm hne)

end Search

namespace LineMap

theorem lineIndex_spec {map : LineMap} {offset : Nat} (hs : StrictlyAscending map.lineStarts)
    (hpos : 0 < map.lineStarts.size) (hfirst : map.lineStarts.getD 0 0 ≤ offset) :
    map.lineIndex offset < map.lineStarts.size ∧
      map.lineStarts.getD (map.lineIndex offset) 0 ≤ offset ∧
      ∀ j, map.lineIndex offset < j → j < map.lineStarts.size →
        offset < map.lineStarts.getD j 0 := by
  unfold lineIndex
  split
  next i hi =>
    obtain ⟨hin, heq⟩ := binarySearch_ok hs.ascending hi
    exact ⟨hin, Nat.le_of_eq heq, fun j hj hjn => heq ▸ hs i j hj hjn⟩
  next i hi =>
    obtain ⟨hin, hbelow, habove⟩ := binarySearch_error hs.ascending hi
    have hi0 : 0 < i := Nat.pos_of_ne_zero fun h0 => by
      have := habove 0 (by omega) hpos
      omega
    exact ⟨by omega, Nat.le_of_lt (hbelow _ (by omega)), fun j hj hjn => habove j (by omega) hjn⟩

theorem take_lineIndex {map : LineMap} {offset : Nat} (hs : StrictlyAscending map.lineStarts)
    (hpos : 0 < map.lineStarts.size) (hfirst : map.lineStarts.getD 0 0 ≤ offset) :
    map.lineStarts.toList.take (map.lineIndex offset + 1) =
      map.lineStarts.toList.filter (· ≤ offset) := by
  obtain ⟨hk, hle, habove⟩ := lineIndex_spec hs hpos hfirst
  set k := map.lineIndex offset
  set L := map.lineStarts.toList
  have hget : ∀ j (hj : j < L.length), L[j] = map.lineStarts.getD j 0 := fun j hj => by
    simp [L, Array.getD_eq_getD_getElem?, Array.getElem?_eq_getElem (by simpa using hj)]
  have hhead : ∀ a ∈ L.take (k + 1), decide (a ≤ offset) = true := by
    intro a ha
    obtain ⟨j, hj, rfl⟩ := List.mem_iff_getElem.mp ha
    rw [List.getElem_take, hget, decide_eq_true_eq]
    have hjk : j ≤ k := by simp at hj; omega
    exact Nat.le_trans (hs.ascending j k hjk hk) hle
  have htail : ∀ a ∈ L.drop (k + 1), ¬decide (a ≤ offset) = true := by
    intro a ha
    obtain ⟨j, hj, rfl⟩ := List.mem_iff_getElem.mp ha
    rw [List.getElem_drop, hget, decide_eq_true_eq, Nat.not_le]
    simp only [List.length_drop, L, Array.length_toList] at hj
    exact habove _ (by omega) (by omega)
  conv_rhs => rw [← List.take_append_drop (k + 1) L]
  rw [List.filter_append, List.filter_eq_self.mpr hhead, List.filter_eq_nil_iff.mpr htail,
    List.append_nil]

theorem lineCol_eq_starts {map : LineMap} {offset : Nat} (hs : StrictlyAscending map.lineStarts)
    (hpos : 0 < map.lineStarts.size) (hfirst : map.lineStarts.getD 0 0 ≤ offset) :
    map.lineCol offset =
      ⟨(map.lineStarts.toList.filter (· ≤ offset)).length,
        offset - ((map.lineStarts.toList.filter (· ≤ offset)).getLast?.getD 0) + 1⟩ := by
  have htake := take_lineIndex hs hpos hfirst
  obtain ⟨hk, -, -⟩ := lineIndex_spec hs hpos hfirst
  set k := map.lineIndex offset
  have hlen : (map.lineStarts.toList.take (k + 1)).length = k + 1 := by
    simp only [List.length_take, Array.length_toList]
    omega
  have hlast : (map.lineStarts.toList.take (k + 1)).getLast? = map.lineStarts[k]? := by
    rw [List.getLast?_eq_getElem?, hlen, Nat.add_sub_cancel, List.getElem?_take,
      if_pos (Nat.lt_succ_self k), Array.getElem?_toList]
  rw [← htake, hlen, hlast, ← Array.getD_eq_getD_getElem?]
  rfl

theorem lt_of_mem_newlineEnds {bytes : List UInt8} {offset n : Nat}
    (h : n ∈ newlineEnds bytes offset) : offset < n := by
  induction bytes generalizing offset with
  | nil => cases h
  | cons b bs ih =>
    unfold newlineEnds at h
    split at h
    · rcases List.mem_cons.mp h with rfl | h
      · omega
      · exact Nat.lt_of_succ_lt (ih h)
    · exact Nat.lt_of_succ_lt (ih h)

theorem le_of_mem_newlineEnds {bytes : List UInt8} {offset n : Nat}
    (h : n ∈ newlineEnds bytes offset) : n ≤ offset + bytes.length := by
  induction bytes generalizing offset with
  | nil => cases h
  | cons b bs ih =>
    rw [List.length_cons]
    unfold newlineEnds at h
    split at h
    · rcases List.mem_cons.mp h with rfl | h
      · omega
      · have := ih h; omega
    · have := ih h; omega

theorem newlineEnds_pairwise (bytes : List UInt8) (offset : Nat) :
    (offset :: newlineEnds bytes offset).Pairwise (· < ·) := by
  induction bytes generalizing offset with
  | nil => exact List.pairwise_singleton _ _
  | cons b bs ih =>
    refine List.Pairwise.cons (fun n hn => lt_of_mem_newlineEnds hn) ?_
    unfold newlineEnds
    split
    · exact ih (offset + 1)
    · exact (ih (offset + 1)).of_cons

theorem length_newlineEnds (bytes : List UInt8) (offset : Nat) :
    (newlineEnds bytes offset).length = bytes.count 10 := by
  induction bytes generalizing offset with
  | nil => rfl
  | cons b bs ih =>
    unfold newlineEnds
    split <;> simp_all

theorem filter_newlineEnds (bytes : List UInt8) (offset n : Nat) :
    (newlineEnds bytes offset).filter (· ≤ offset + n) = newlineEnds (bytes.take n) offset := by
  induction bytes generalizing offset n with
  | nil => simp [newlineEnds]
  | cons b bs ih =>
    cases n with
    | zero =>
      rw [List.take_zero, show newlineEnds [] offset = [] from rfl, List.filter_eq_nil_iff]
      intro a ha
      have := lt_of_mem_newlineEnds ha
      simp only [Nat.add_zero, decide_eq_true_eq, Nat.not_le]
      exact this
    | succ n =>
      have hih := ih (offset + 1) n
      rw [show offset + 1 + n = offset + (n + 1) by omega] at hih
      rw [List.take_succ_cons]
      unfold newlineEnds
      split
      · rw [List.filter_cons_of_pos (by simp), hih]
      · exact hih

theorem newlineEnds_append (xs ys : List UInt8) (offset : Nat) :
    newlineEnds (xs ++ ys) offset = newlineEnds xs offset ++ newlineEnds ys (offset + xs.length) := by
  induction xs generalizing offset with
  | nil => rfl
  | cons b bs ih =>
    simp only [List.cons_append, newlineEnds, ih, List.length_cons]
    rw [show offset + 1 + bs.length = offset + (bs.length + 1) by omega]
    split <;> rfl

end LineMap

/-- Where the line holding the end of `bytes` starts: just past the last newline byte, or at 0
when there is none. Dropping from the back the bytes that are not newlines leaves the bytes up to
and including the last newline. -/
def lastLineStart (bytes : List UInt8) : Nat := (bytes.reverse.dropWhile (· ≠ 10)).length

namespace LineMap

theorem getLast_newlineEnds (bytes : List UInt8) (offset : Nat) :
    (offset :: newlineEnds bytes offset).getLast (List.cons_ne_nil _ _) =
      offset + lastLineStart bytes := by
  induction bytes using List.reverseRecOn with
  | nil => rfl
  | append_singleton bs b ih =>
    simp only [newlineEnds_append, lastLineStart, List.reverse_append, List.reverse_cons,
      List.reverse_nil, List.nil_append, List.singleton_append, List.dropWhile_cons]
    by_cases hb : b = 10
    · simp only [newlineEnds, hb, ↓reduceIte, ne_eq, not_true_eq_false, decide_false,
        Bool.false_eq_true, List.length_cons, List.length_reverse]
      simp only [← List.cons_append, List.getLast_append_singleton]
      omega
    · have hnil : newlineEnds [b] (offset + bs.length) = [] := by simp [newlineEnds, hb]
      simp only [hnil, List.append_nil, ih, lastLineStart, ne_eq, hb, not_false_eq_true,
        decide_true, ↓reduceIte]

end LineMap

namespace LineMap

theorem new_lineStarts_toList (source : String) :
    (LineMap.new source).lineStarts.toList = 0 :: newlineEnds source.toUTF8.data.toList 0 := by
  simp [LineMap.new]

theorem le_of_mem_new_lineStarts {source : String} {x : Nat}
    (hx : x ∈ (LineMap.new source).lineStarts) : x ≤ source.utf8ByteSize := by
  rw [← Array.mem_toList_iff, new_lineStarts_toList] at hx
  rcases List.mem_cons.mp hx with rfl | hx
  · exact Nat.zero_le _
  · simpa using le_of_mem_newlineEnds hx

theorem lineCol_new (source : String) (offset : Nat) :
    (LineMap.new source).lineCol offset =
      ⟨(source.toUTF8.data.toList.take offset).count 10 + 1,
        offset - lastLineStart (source.toUTF8.data.toList.take offset) + 1⟩ := by
  have hL := new_lineStarts_toList source
  set bytes := source.toUTF8.data.toList
  have hs : StrictlyAscending (LineMap.new source).lineStarts := by
    apply StrictlyAscending.of_pairwise
    rw [hL]
    exact newlineEnds_pairwise bytes 0
  have hpos : 0 < (LineMap.new source).lineStarts.size := by
    simp [← Array.length_toList, hL]
  have hfirst : (LineMap.new source).lineStarts.getD 0 0 ≤ offset := by
    simp [Array.getD_eq_getD_getElem?, ← Array.getElem?_toList, hL]
  have hfilter : (LineMap.new source).lineStarts.toList.filter (· ≤ offset) =
      0 :: newlineEnds (bytes.take offset) 0 := by
    rw [hL, List.filter_cons_of_pos (by simp)]
    simpa using filter_newlineEnds bytes 0 offset
  rw [lineCol_eq_starts hs hpos hfirst, hfilter, List.length_cons, length_newlineEnds,
    List.getLast?_eq_some_getLast (List.cons_ne_nil _ _), getLast_newlineEnds, Nat.zero_add]
  rfl

end LineMap

/-- The line of byte `offset` of a text is one more than the number of newline bytes before it,
and its column is one more than its distance from just past the last of them; on a text that
fits 32-bit offsets, so does every line start. -/
theorem lineCol_counts_newlines (source : String) (hsize : source.utf8ByteSize < 2 ^ 32)
    (offset : Nat) :
    (LineMap.new source).lineCol offset =
      ⟨(source.toUTF8.data.toList.take offset).count 10 + 1,
        offset - lastLineStart (source.toUTF8.data.toList.take offset) + 1⟩ ∧
      ∀ x ∈ (LineMap.new source).lineStarts, x < 2 ^ 32 :=
  ⟨LineMap.lineCol_new source offset,
    fun _ hx => Nat.lt_of_le_of_lt (LineMap.le_of_mem_new_lineStarts hx) hsize⟩

theorem lineCol_counts_newlines_sample :
    (LineMap.new "ab\ncd\n\nx").lineCol 6 = ⟨3, 1⟩ ∧
      ∀ x ∈ (LineMap.new "ab\ncd\n\nx").lineStarts, x < 2 ^ 32 := by
  obtain ⟨hcol, hfit⟩ := lineCol_counts_newlines "ab\ncd\n\nx" (by decide) 6
  exact ⟨hcol.trans (by decide +kernel), hfit⟩

end Sigh
