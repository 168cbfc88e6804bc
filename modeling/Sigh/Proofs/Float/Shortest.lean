import Sigh.Proofs.Float.Scientific

namespace Sigh.Decimal

theorem zpow_eq_pow_div (x : ℚ) (p : Int) : x ^ p = x ^ p.toNat / x ^ (-p).toNat := by
  rcases Int.le_total 0 p with h | h
  · rw [show (-p).toNat = 0 by omega, pow_zero, div_one, ← zpow_natCast, Int.toNat_of_nonneg h]
  · rw [show p.toNat = 0 by omega, pow_zero, ← zpow_natCast, Int.toNat_of_nonneg (by omega),
      zpow_neg, one_div, inv_inv]

theorem scaled_eq (a : Nat) (p t : Int) :
    0 < (scaled a p t).2 ∧ ((scaled a p t).1 : ℚ) = a * 2 ^ p * 10 ^ t * (scaled a p t).2 := by
  refine ⟨by simp only [scaled, Nat.pow_eq]; positivity, ?_⟩
  simp only [scaled, Nat.pow_eq]
  rw [zpow_eq_pow_div 2 p, zpow_eq_pow_div 10 t]
  push_cast
  field_simp

theorem Binary.atLeastPow10_iff (b : Binary) (e : Int) :
    b.atLeastPow10 e = true ↔ (10 : ℚ) ^ e ≤ b.value := by
  obtain ⟨hden, hnum⟩ := scaled_eq b.significand b.exponent (-e)
  have hd : (0 : ℚ) < (scaled b.significand b.exponent (-e)).2 := by exact_mod_cast hden
  have hp : (0 : ℚ) < 10 ^ e := zpow_pos (by norm_num) _
  have hdiv : (10 : ℚ) ^ (-e) = (10 ^ e)⁻¹ := zpow_neg _ _
  show decide ((scaled b.significand b.exponent (-e)).2 ≤ (scaled b.significand b.exponent (-e)).1)
    = true ↔ _
  rw [decide_eq_true_iff, ← Nat.cast_le (α := ℚ), hnum, hdiv, Binary.value]
  constructor
  · intro h
    have h1 : 1 ≤ (b.significand : ℚ) * 2 ^ b.exponent * (10 ^ e)⁻¹ :=
      le_of_mul_le_mul_right (by rw [one_mul]; exact h) hd
    rwa [le_mul_inv_iff₀ hp, one_mul] at h1
  · intro h
    have h1 : 1 ≤ (b.significand : ℚ) * 2 ^ b.exponent * (10 ^ e)⁻¹ := by
      rwa [le_mul_inv_iff₀ hp, one_mul]
    calc ((scaled b.significand b.exponent (-e)).2 : ℚ)
        = 1 * (scaled b.significand b.exponent (-e)).2 := (one_mul _).symm
      _ ≤ _ := mul_le_mul_of_nonneg_right h1 hd.le

theorem scaled_cmp {a d : Nat} {p t : Int} {x : ℚ}
    (hx : (a : ℚ) * 2 ^ p * 10 ^ t = x) :
    ((scaled a p t).1 ≤ d * (scaled a p t).2 ↔ x ≤ d) ∧
      ((scaled a p t).1 < d * (scaled a p t).2 ↔ x < d) ∧
      (d * (scaled a p t).2 ≤ (scaled a p t).1 ↔ (d : ℚ) ≤ x) ∧
      (d * (scaled a p t).2 < (scaled a p t).1 ↔ (d : ℚ) < x) := by
  obtain ⟨hden, hnum⟩ := scaled_eq a p t
  have hd : (0 : ℚ) < (scaled a p t).2 := by exact_mod_cast hden
  rw [hx] at hnum
  refine ⟨?_, ?_, ?_, ?_⟩
  · rw [← Nat.cast_le (α := ℚ), Nat.cast_mul, hnum]
    exact mul_le_mul_iff_of_pos_right hd
  · rw [← Nat.cast_lt (α := ℚ), Nat.cast_mul, hnum]
    exact mul_lt_mul_iff_of_pos_right hd
  · rw [← Nat.cast_le (α := ℚ), Nat.cast_mul, hnum]
    exact mul_le_mul_iff_of_pos_right hd
  · rw [← Nat.cast_lt (α := ℚ), Nat.cast_mul, hnum]
    exact mul_lt_mul_iff_of_pos_right hd

theorem Binary.readsBack_iff {b : Binary} (hS : 0 < b.significand) (k : Int) (d : Nat) :
    b.readsBack k d = true ↔ b.Rounds (d * 10 ^ k) := by
  have hp : (0 : ℚ) < 10 ^ k := zpow_pos (by norm_num) _
  have hq : (2 : ℚ) ^ (b.exponent - 2) = 2 ^ b.exponent / 4 := by
    rw [zpow_sub₀ two_ne_zero]
    norm_num
  have hk : (10 : ℚ) ^ (-k) = (10 ^ k)⁻¹ := zpow_neg _ _
  have hlo : ((4 * b.significand - if b.narrowBelow then 1 else 2 : ℕ) : ℚ) *
      2 ^ (b.exponent - 2) * 10 ^ (-k) = (b.significand - b.gapBelow) * 2 ^ b.exponent / 10 ^ k := by
    rw [hq, hk]
    unfold Binary.gapBelow
    split
    · rw [Nat.cast_sub (by omega)]
      push_cast
      ring
    · rw [Nat.cast_sub (by omega)]
      push_cast
      ring
  have hhi : ((4 * b.significand + 2 : ℕ) : ℚ) * 2 ^ (b.exponent - 2) * 10 ^ (-k) =
      (b.significand + (1 : ℚ) / 2) * 2 ^ b.exponent / 10 ^ k := by
    rw [hq, hk]
    push_cast
    ring
  obtain ⟨l1, l2, -, -⟩ := scaled_cmp (d := d) hlo
  obtain ⟨-, -, h3, h4⟩ := scaled_cmp (d := d) hhi
  simp only [Binary.readsBack]
  unfold Binary.Rounds
  split <;> simp only [Bool.and_eq_true, decide_eq_true_iff, l1, l2, h3, h4, div_le_iff₀ hp,
    div_lt_iff₀ hp, le_div_iff₀ hp, lt_div_iff₀ hp]

theorem Binary.onGrid_readsBack {b : Binary} {n : Nat} {s : Scientific} (h : b.onGrid n = some s) :
    b.readsBack s.exponent s.digits = true := by
  simp only [Binary.onGrid] at h
  split_ifs at h <;> cases h <;> simp_all

theorem Binary.onGrid_rounds {b : Binary} (hS : 0 < b.significand) {n : Nat} {s : Scientific}
    (h : b.onGrid n = some s) : b.Rounds (s.digits * 10 ^ s.exponent) :=
  (Binary.readsBack_iff hS _ _).mp (Binary.onGrid_readsBack h)

theorem ten_pow_le_two_pow : 10 ^ 78913 ≤ 2 ^ 262144 := by decide +kernel

theorem two_pow_le_ten_pow : 2 ^ 262144 ≤ 10 ^ 78914 := by decide +kernel

theorem estimate_le (t : Int) (ht : -262144 ≤ t) :
    (10 : ℚ) ^ ((t * 78913).fdiv 262144 - 1) ≤ 2 ^ t := by
  have hf : (t * 78913).fdiv 262144 = t * 78913 / 262144 := Int.fdiv_eq_ediv_of_nonneg _ (by norm_num)
  set g := (t * 78913).fdiv 262144 with hg
  have hg1 : g * 262144 ≤ t * 78913 := by omega
  have hg2 : t * 78913 < (g + 1) * 262144 := by omega
  rcases le_or_gt 0 t with h0 | h0
  · obtain ⟨T, rfl⟩ := Int.eq_ofNat_of_zero_le h0
    obtain ⟨G, hG⟩ := Int.eq_ofNat_of_zero_le (show 0 ≤ g by omega)
    have hGT : 262144 * G ≤ 78913 * T := by omega
    have hnat : 10 ^ G ≤ 2 ^ T := by
      refine (Nat.pow_le_pow_iff_left (n := 262144) (by norm_num)).mp ?_
      calc (10 ^ G) ^ 262144 = 10 ^ (G * 262144) := (pow_mul _ _ _).symm
        _ ≤ 10 ^ (78913 * T) := Nat.pow_le_pow_right (by norm_num) (by omega)
        _ = (10 ^ 78913) ^ T := pow_mul _ _ _
        _ ≤ (2 ^ 262144) ^ T := Nat.pow_le_pow_left ten_pow_le_two_pow _
        _ = (2 ^ T) ^ 262144 := by rw [← pow_mul, ← pow_mul, mul_comm]
    calc (10 : ℚ) ^ (g - 1) ≤ 10 ^ g := zpow_le_zpow_right₀ (by norm_num) (by omega)
      _ = ((10 ^ G : ℕ) : ℚ) := by rw [hG, zpow_natCast]; push_cast; rfl
      _ ≤ ((2 ^ T : ℕ) : ℚ) := by exact_mod_cast hnat
      _ = 2 ^ (T : ℤ) := by rw [zpow_natCast]; push_cast; rfl
  · obtain ⟨T, hT⟩ := Int.eq_ofNat_of_zero_le (show 0 ≤ -t by omega)
    obtain ⟨Q, hQ⟩ := Int.eq_ofNat_of_zero_le (show 0 ≤ -g by omega)
    have hQT : 78913 * T ≤ 262144 * Q := by omega
    have hnat : 2 ^ T ≤ 10 ^ (Q + 1) := by
      refine (Nat.pow_le_pow_iff_left (n := 262144) (by norm_num)).mp ?_
      calc (2 ^ T) ^ 262144 = (2 ^ 262144) ^ T := by rw [← pow_mul, ← pow_mul, mul_comm]
        _ ≤ (10 ^ 78914) ^ T := Nat.pow_le_pow_left two_pow_le_ten_pow _
        _ = 10 ^ (78914 * T) := (pow_mul _ _ _).symm
        _ ≤ 10 ^ ((Q + 1) * 262144) := Nat.pow_le_pow_right (by norm_num) (by omega)
        _ = (10 ^ (Q + 1)) ^ 262144 := pow_mul _ _ _
    have hq : (2 : ℚ) ^ T ≤ 10 ^ (Q + 1) := by exact_mod_cast hnat
    rw [show g - 1 = -((Q + 1 : ℕ) : ℤ) by push_cast; omega, show t = -(T : ℤ) by omega,
      zpow_neg, zpow_neg, zpow_natCast, zpow_natCast]
    exact inv_anti₀ (by positivity) hq

theorem Binary.two_pow_le_value {b : Binary} (hS : 0 < b.significand) :
    (2 : ℚ) ^ ((bitLength b.significand : ℤ) + b.exponent) ≤ b.value := by
  rw [zpow_add₀ two_ne_zero, zpow_natCast, Binary.value]
  apply mul_le_mul_of_nonneg_right _ (zpow_pos (by norm_num) _).le
  exact_mod_cast Nat.log2_self_le hS.ne'

theorem Binary.decimalExponent_le {b : Binary} (hb : b.Normal) :
    (10 : ℚ) ^ b.decimalExponent ≤ b.value := by
  have hS := hb.significand_pos
  set t : ℤ := (bitLength b.significand : ℤ) + b.exponent with ht
  have hE := hb.exponent_ge
  have hlow : b.atLeastPow10 ((t * 78913).fdiv 262144 - 1) = true :=
    (Binary.atLeastPow10_iff _ _).mpr ((estimate_le t (by omega)).trans (Binary.two_pow_le_value hS))
  simp only [Binary.decimalExponent]
  rw [← ht]
  set g := (t * 78913).fdiv 262144
  obtain ⟨c, hc⟩ : ∃ c, [g + 2, g + 1, g, g - 1].find? b.atLeastPow10 = some c := by
    cases h : [g + 2, g + 1, g, g - 1].find? b.atLeastPow10 with
    | none => exact absurd hlow (by simpa using List.find?_eq_none.mp h (g - 1) (by simp))
    | some c => exact ⟨c, rfl⟩
  rw [hc, Option.getD_some]
  exact (Binary.atLeastPow10_iff _ _).mp (List.find?_some hc)

theorem Binary.rounds_of_lt {b : Binary} {q : ℚ}
    (h1 : (b.significand - b.gapBelow) * 2 ^ b.exponent < q)
    (h2 : q < (b.significand + (1 : ℚ) / 2) * 2 ^ b.exponent) : b.Rounds q := by
  unfold Binary.Rounds
  split
  · exact ⟨h1.le, h2.le⟩
  · exact ⟨h1, h2⟩

theorem Binary.Normal.value_div_lt {b : Binary} (hb : b.Normal) :
    b.value / 10 ^ 16 < (b.gapBelow + 1 / 2) * 2 ^ b.exponent := by
  have hp : (0 : ℚ) < 2 ^ b.exponent := zpow_pos (by norm_num) _
  rw [Binary.value, mul_div_right_comm]
  apply mul_lt_mul_of_pos_right _ hp
  unfold Binary.gapBelow
  split
  · rename_i hn
    rw [(hb.narrow_iff.mp hn).1]
    norm_num
  · have : b.significand < 10 ^ 16 := by
      have := hb.significand_lt
      omega
    rw [div_lt_iff₀ (by norm_num)]
    norm_num
    exact_mod_cast this

theorem Binary.onGrid_seventeen {b : Binary} (hb : b.Normal) : ∃ s, b.onGrid 17 = some s := by
  have hS := hb.significand_pos
  set k := b.decimalExponent + 1 - (17 : ℕ) with hk
  obtain ⟨hden, hnum⟩ := scaled_eq (4 * b.significand) (b.exponent - 2) (-k)
  set num := (scaled (4 * b.significand) (b.exponent - 2) (-k)).1
  set den := (scaled (4 * b.significand) (b.exponent - 2) (-k)).2
  have hp : (0 : ℚ) < 10 ^ k := zpow_pos (by norm_num) _
  have hv : (4 * b.significand : ℕ) * (2 : ℚ) ^ (b.exponent - 2) * 10 ^ (-k) = b.value / 10 ^ k := by
    rw [zpow_sub₀ two_ne_zero, zpow_neg, Binary.value]
    push_cast
    ring
  rw [hv] at hnum
  suffices hin : b.readsBack k (num / den) = true ∨
      (num % den ≠ 0 ∧ b.readsBack k (num / den + 1) = true) by
    simp only [Binary.onGrid]
    rw [← hk]
    split_ifs with h1 h2 h3 h4
    all_goals first | exact ⟨_, rfl⟩ | skip
    simp only [Bool.and_eq_true, decide_eq_true_iff, not_and] at h1 h3 h4
    rcases hin with h | h
    · exact absurd h h3
    · exact absurd h.2 (h4 h.1)
  set lower := num / den
  have hdm : den * lower + num % den = num := Nat.div_add_mod num den
  have hmod : num % den < den := Nat.mod_lt _ hden
  have hdq : (0 : ℚ) < den := by exact_mod_cast hden
  have hlow : (lower : ℚ) * 10 ^ k ≤ b.value := by
    have h1 : (den : ℚ) * lower ≤ num := by exact_mod_cast (show den * lower ≤ num by omega)
    rw [hnum, mul_comm (den : ℚ)] at h1
    have := le_of_mul_le_mul_right h1 hdq
    rwa [le_div_iff₀ hp] at this
  have hhigh : b.value < ((lower : ℚ) + 1) * 10 ^ k := by
    have h1 : (num : ℚ) < den * (lower + 1) := by
      exact_mod_cast (show num < den * (lower + 1) by rw [Nat.mul_succ]; omega)
    rw [hnum, mul_comm (den : ℚ)] at h1
    have := lt_of_mul_lt_mul_right h1 hdq.le
    rwa [div_lt_iff₀ hp] at this
  have hspace : (10 : ℚ) ^ k ≤ b.value / 10 ^ 16 := by
    rw [hk, show b.decimalExponent + 1 - ((17 : ℕ) : ℤ) = b.decimalExponent + (-16) by push_cast; ring,
      zpow_add₀ (by norm_num), le_div_iff₀ (by norm_num), mul_assoc,
      show (10 : ℚ) ^ (-16 : ℤ) * 10 ^ 16 = 1 by norm_num, mul_one]
    exact Binary.decimalExponent_le hb
  have hwide := hb.value_div_lt
  have hgap : 0 < b.gapBelow := by unfold Binary.gapBelow; split <;> norm_num
  have hu : (0 : ℚ) < 2 ^ b.exponent := zpow_pos (by norm_num) _
  by_contra hnot
  simp only [not_or, not_and, Bool.not_eq_true] at hnot
  obtain ⟨hL, hU⟩ := hnot
  rw [← Bool.not_eq_true, Binary.readsBack_iff hS] at hL
  by_cases hexact : num % den = 0
  · apply hL
    have : (lower : ℚ) * 10 ^ k = b.value := by
      have h1 : (den : ℚ) * lower = num := by exact_mod_cast (show den * lower = num by omega)
      rw [hnum, mul_comm (den : ℚ)] at h1
      have := mul_right_cancel₀ hdq.ne' h1
      rw [this, div_mul_cancel₀ _ hp.ne']
    rw [this]
    exact Binary.rounds_value
  · have hU' := hU hexact
    rw [← Bool.not_eq_true, Binary.readsBack_iff hS] at hU'
    push_cast at hU'
    have hv : b.value = b.significand * 2 ^ b.exponent := rfl
    have hbelow : (lower : ℚ) * 10 ^ k ≤ (b.significand - b.gapBelow) * 2 ^ b.exponent := by
      by_contra h
      exact hL (Binary.rounds_of_lt (lt_of_not_ge h) (by nlinarith))
    have habove : (b.significand + (1 : ℚ) / 2) * 2 ^ b.exponent ≤ ((lower : ℚ) + 1) * 10 ^ k := by
      by_contra h
      exact hU' (Binary.rounds_of_lt (by nlinarith) (lt_of_not_ge h))
    nlinarith

/-- The value `digits * 10 ^ exponent`. -/
def Scientific.value (s : Scientific) : ℚ := (s.digits : ℚ) * 10 ^ s.exponent

theorem Scientific.value_normalize_go :
    ∀ (fuel : Nat) (s : Scientific), (Scientific.normalize.go fuel s).value = s.value
  | 0, s => rfl
  | fuel + 1, s => by
    unfold Scientific.normalize.go
    split
    · rename_i h
      rw [Scientific.value_normalize_go fuel]
      obtain ⟨q, hq⟩ := Nat.dvd_of_mod_eq_zero h.2
      simp only [Scientific.value, hq, Nat.mul_div_cancel_left q (by norm_num : 0 < 10),
        zpow_add₀ (show (10 : ℚ) ≠ 0 by norm_num)]
      push_cast
      ring
    · rfl

theorem Scientific.value_normalize (s : Scientific) : s.normalize.value = s.value :=
  Scientific.value_normalize_go _ s

theorem Binary.shortest_rounds {b : Binary} (hb : b.Normal) : b.Rounds b.shortest.value := by
  have hS := hb.significand_pos
  obtain ⟨s₁₇, h₁₇⟩ := Binary.onGrid_seventeen hb
  obtain ⟨s, hs⟩ : ∃ s, (List.range 17).findSome? (fun i => b.onGrid (i + 1)) = some s := by
    cases h : (List.range 17).findSome? (fun i => b.onGrid (i + 1)) with
    | none =>
      have := List.findSome?_eq_none_iff.mp h 16 (by simp)
      rw [h₁₇] at this
      cases this
    | some s => exact ⟨s, rfl⟩
  obtain ⟨i, -, hi⟩ := List.exists_of_findSome?_eq_some hs
  unfold Binary.shortest
  simp only [hs, Option.getD_some, Scientific.value_normalize]
  exact Binary.onGrid_rounds hS hi

end Sigh.Decimal
