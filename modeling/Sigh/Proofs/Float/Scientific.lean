import Sigh.Proofs.Float.Bits
import Sigh.Decimal.Read

open Float.Model Float.Model.UnpackedFloat

namespace Sigh.Rounding

open Decimal

theorem describes_accuracyOfFraction {num den : Nat} (h : num < den) :
    Describes (accuracyOfFraction num den) (num / den) := by
  have hd : (0 : ℚ) < den := by exact_mod_cast (show 0 < den by omega)
  unfold accuracyOfFraction
  split
  · rename_i h0
    simp [Describes, h0]
  · rename_i h0
    have hpos : (0 : ℚ) < num / den := div_pos (by exact_mod_cast Nat.pos_of_ne_zero h0) hd
    have hlt : (num : ℚ) / den < 1 := (div_lt_one hd).mpr (by exact_mod_cast h)
    rcases hc : compare (2 * num) den with _ | _ | _ <;> simp only [Describes]
    · have : 2 * num < den := Nat.compare_eq_lt.mp hc
      have : (2 * num : ℚ) < den := by exact_mod_cast this
      refine ⟨hpos, ?_⟩
      rw [div_lt_iff₀ hd]
      linarith
    · have : 2 * num = den := Nat.compare_eq_eq.mp hc
      have : (2 * num : ℚ) = den := by exact_mod_cast this
      rw [div_eq_iff hd.ne']
      linarith
    · have : den < 2 * num := Nat.compare_eq_gt.mp hc
      have : (den : ℚ) < 2 * num := by exact_mod_cast this
      refine ⟨?_, hlt⟩
      rw [lt_div_iff₀ hd]
      linarith

end Sigh.Rounding

namespace Sigh.Rounding

open Decimal

theorem two_pow_le_div {a d j : Nat} (hd : 0 < d) (h : 2 ^ (j + d.log2 + 1) ≤ a) :
    2 ^ j ≤ a / d := by
  rw [Nat.le_div_iff_mul_le hd]
  have hlt : d < 2 ^ (d.log2 + 1) := Nat.lt_log2_self
  calc 2 ^ j * d ≤ 2 ^ j * 2 ^ (d.log2 + 1) := Nat.mul_le_mul_left _ hlt.le
    _ = 2 ^ (j + d.log2 + 1) := by rw [← pow_add, Nat.add_assoc]
    _ ≤ a := h

theorem le_log2_of_two_pow_le {n j : Nat} (h : 2 ^ j ≤ n) : j ≤ n.log2 :=
  (Nat.le_log2 (by have := Nat.one_le_two_pow (n := j); omega)).mpr h

theorem targetExponent_binary64 (x : Int) :
    Format.binary64.targetExponent x = max (x - 53) (-1074) := rfl

theorem totalExponent_eq (m : Nat) (e : Int) : totalExponent m e = (m.log2 : Int) + 1 + e := rfl

theorem div_eq {b : Binary} (hb : b.Normal) {m₁ m₂ : Nat} {e₁ e₂ : Int} (h₁ : 0 < m₁)
    (h₂ : 0 < m₂) (hq : b.Rounds ((m₁ : ℚ) * 2 ^ e₁ / (m₂ * 2 ^ e₂))) :
    UnpackedFloat.div .binary64 (.finite .positive m₁ e₁ h₁) (.finite .positive m₂ e₂ h₂) =
      .finite .positive b.significand b.exponent hb.significand_pos := by
  set t := min (e₁ - e₂)
    (Format.binary64.targetExponent (totalExponent m₁ e₁ - totalExponent m₂ e₂)) with ht
  set k := (e₁ - e₂ - t).toNat with hk
  have hkt : (k : ℤ) = e₁ - e₂ - t := Int.toNat_of_nonneg (by omega)
  set Q := (m₁ <<< k) / m₂ with hQdef
  set r := (m₁ <<< k) % m₂ with hrdef
  have hdiv : UnpackedFloat.div .binary64 (.finite .positive m₁ e₁ h₁) (.finite .positive m₂ e₂ h₂) =
      roundWithAccuracy .binary64 .positive Q t (accuracyOfFraction r m₂) := rfl
  have hm₂ : (0 : ℚ) < m₂ := by exact_mod_cast h₂
  have hdm : (m₂ : ℚ) * Q + r = m₁ * 2 ^ k := by
    have h : m₂ * Q + r = m₁ * 2 ^ k := by
      rw [← Nat.shiftLeft_eq]
      exact Nat.div_add_mod _ _
    exact_mod_cast h
  have hpow : (2 : ℚ) ^ k * 2 ^ t = 2 ^ e₁ / 2 ^ e₂ := by
    rw [← zpow_natCast, ← zpow_add₀ two_ne_zero, ← zpow_sub₀ two_ne_zero]
    congr 1
    omega
  have hval : ((Q : ℚ) + r / m₂) * 2 ^ t = m₁ * 2 ^ e₁ / (m₂ * 2 ^ e₂) := by
    calc ((Q : ℚ) + r / m₂) * 2 ^ t = (m₂ * Q + r) / m₂ * 2 ^ t := by field_simp
      _ = m₁ * (2 ^ k * 2 ^ t) / m₂ := by rw [hdm]; ring
      _ = m₁ * 2 ^ e₁ / (m₂ * 2 ^ e₂) := by rw [hpow]; field_simp
  have hδ := describes_accuracyOfFraction (Nat.mod_lt (m₁ <<< k) h₂)
  rw [← hrdef] at hδ
  rw [← hval] at hq
  obtain ⟨hQ, hF⟩ : 0 < Q ∧ t ≤ Format.binary64.targetExponent (totalExponent Q t) := by
    by_cases hsmall : t ≤ -1074
    · refine ⟨Nat.pos_of_ne_zero fun hQ0 => ?_, ?_⟩
      · have hlow := (hq.binade hb).1
        have hE := hb.exponent_ge
        rw [hQ0, Nat.cast_zero, zero_add] at hlow
        have hr1 : (r : ℚ) / m₂ < 1 := hδ.lt_one
        have h1 : (2 : ℚ) ^ t ≤ 2 ^ (b.exponent + 51) :=
          zpow_le_zpow_right₀ (by norm_num) (by omega)
        have h2 : (r : ℚ) / m₂ * 2 ^ t < 2 ^ t :=
          mul_lt_of_lt_one_left (zpow_pos (by norm_num) _) hr1
        linarith
      · rw [targetExponent_binary64]
        omega
    · have hkL : m₂.log2 + 53 ≤ m₁.log2 + k := by
        rw [targetExponent_binary64, totalExponent_eq, totalExponent_eq] at ht
        omega
      have hQ52 : 2 ^ 52 ≤ Q := by
        apply two_pow_le_div h₂
        rw [Nat.shiftLeft_eq]
        calc 2 ^ (52 + m₂.log2 + 1) ≤ 2 ^ (m₁.log2 + k) := Nat.pow_le_pow_right (by norm_num) (by omega)
          _ = 2 ^ m₁.log2 * 2 ^ k := pow_add _ _ _
          _ ≤ m₁ * 2 ^ k := Nat.mul_le_mul_right _ (Nat.log2_self_le h₁.ne')
      have hL := le_log2_of_two_pow_le hQ52
      refine ⟨by omega, ?_⟩
      rw [targetExponent_binary64, totalExponent_eq]
      omega
  rw [hdiv]
  exact roundWithAccuracy_eq hb .positive hδ hQ hF hq

end Sigh.Rounding

namespace Sigh.Decimal

/-- The normal magnitude with significand `S` and exponent `E`, narrow below exactly where a
binade starts above the lowest one. -/
def Binary.normal (S : Nat) (E : Int) : Binary := ⟨S, E, S = 2 ^ 52 && -1074 < E⟩

theorem Binary.normal_normal {S : Nat} {E : Int} (hS1 : 2 ^ 52 ≤ S) (hS2 : S < 2 ^ 53)
    (hE1 : -1074 ≤ E) (hE2 : E ≤ 971) : (Binary.normal S E).Normal :=
  ⟨hS1, hS2, hE1, hE2, by simp [Binary.normal]⟩

theorem Binary.rounds_value {b : Binary} : b.Rounds b.value := by
  have hp : (0 : ℚ) < 2 ^ b.exponent := zpow_pos (by norm_num) _
  have hg : 0 < b.gapBelow := by unfold gapBelow; split <;> norm_num
  unfold Rounds value
  split
  · constructor <;> apply mul_le_mul_of_nonneg_right _ hp.le <;> linarith
  · constructor <;> apply mul_lt_mul_of_pos_right _ hp <;> linarith

end Sigh.Decimal

namespace Sigh.Rounding

open Decimal

theorem mul_eq {b : Binary} (hb : b.Normal) {m₁ m₂ : Nat} {e₁ e₂ : Int} (h₁ : 0 < m₁)
    (h₂ : 0 < m₂) (hm : 2 ^ 52 ≤ m₁ * m₂) (hq : b.Rounds ((m₁ : ℚ) * 2 ^ e₁ * (m₂ * 2 ^ e₂))) :
    UnpackedFloat.mul .binary64 (.finite .positive m₁ e₁ h₁) (.finite .positive m₂ e₂ h₂) =
      .finite .positive b.significand b.exponent hb.significand_pos := by
  have hmul : UnpackedFloat.mul .binary64 (.finite .positive m₁ e₁ h₁) (.finite .positive m₂ e₂ h₂) =
      roundWithAccuracy .binary64 .positive (m₁ * m₂) (e₁ + e₂) .exact := rfl
  have hL := le_log2_of_two_pow_le hm
  have hval : (((m₁ * m₂ : ℕ) : ℚ) + 0) * 2 ^ (e₁ + e₂) = m₁ * 2 ^ e₁ * (m₂ * 2 ^ e₂) := by
    rw [zpow_add₀ two_ne_zero]
    push_cast
    ring
  rw [hmul]
  refine roundWithAccuracy_eq hb .positive (show Describes .exact (0 : ℚ) from rfl)
    (Nat.mul_pos h₁ h₂) ?_ (hval ▸ hq)
  rw [targetExponent_binary64, totalExponent_eq]
  omega

theorem roundWithAccuracy_normal {s : Sign} {S : Nat} {E : Int} (hS1 : 2 ^ 52 ≤ S)
    (hS2 : S < 2 ^ 53) (hE1 : -1074 ≤ E) (hE2 : E ≤ 971) :
    roundWithAccuracy .binary64 s S E .exact = .finite s S E (by omega) := by
  have hb := Binary.normal_normal hS1 hS2 hE1 hE2
  have hL : S.log2 = 52 := hb.log2_significand
  have hval : ((S : ℚ) + 0) * 2 ^ E = (Binary.normal S E).value := by
    simp [Binary.value, Binary.normal]
  refine roundWithAccuracy_eq hb s (show Describes .exact (0 : ℚ) from rfl) (by omega) ?_
    (hval ▸ Binary.rounds_value)
  rw [targetExponent_binary64, totalExponent_eq, hL]
  omega

theorem shift_significand {n : Nat} (h0 : 0 < n) (h53 : n < 2 ^ 53) :
    2 ^ 52 ≤ n * 2 ^ (52 - n.log2) ∧ n * 2 ^ (52 - n.log2) < 2 ^ 53 := by
  have hL : n.log2 < 53 := (Nat.log2_lt h0.ne').mpr h53
  constructor
  · calc 2 ^ 52 = 2 ^ n.log2 * 2 ^ (52 - n.log2) := by rw [← pow_add]; congr 1; omega
      _ ≤ n * 2 ^ (52 - n.log2) := Nat.mul_le_mul_right _ (Nat.log2_self_le h0.ne')
  · calc n * 2 ^ (52 - n.log2) < 2 ^ (n.log2 + 1) * 2 ^ (52 - n.log2) :=
          Nat.mul_lt_mul_of_pos_right Nat.lt_log2_self (by positivity)
      _ = 2 ^ 53 := by rw [← pow_add]; congr 1; omega

theorem ofUInt64_unpack {n : Nat} (h0 : 0 < n) (h53 : n < 2 ^ 53) :
    (Float.Model.ofUInt64 n.toUInt64).unpack =
      .finite .positive (n * 2 ^ (52 - n.log2)) (n.log2 - 52) (by positivity) := by
  have hL : n.log2 < 53 := (Nat.log2_lt h0.ne').mpr h53
  obtain ⟨hS1, hS2⟩ := shift_significand h0 h53
  have hround : UnpackedFloat.ofUInt64 .binary64 n.toUInt64 =

      .finite .positive (n * 2 ^ (52 - n.log2)) (n.log2 - 52) (by positivity) := by
    have hn : n.toUInt64.toNat = n := by
      rw [Nat.toUInt64_eq, UInt64.toNat_ofNat']
      exact Nat.mod_eq_of_lt (by omega)
    have hcmp : compare (n : Int) 0 = .gt := Int.compare_eq_gt.mpr (by omega)
    simp only [UnpackedFloat.ofUInt64, UnpackedFloat.ofNat, UnpackedFloat.ofInt,
      UnpackedFloat.normalize, hn, hcmp, UnpackedFloat.round, decreaseExponent]
    have hT : Format.binary64.targetExponent (totalExponent n 0) = (n.log2 : ℤ) - 52 := by
      rw [targetExponent_binary64, totalExponent_eq]
      omega
    have hsh : ((0 : ℤ) - ((n.log2 : ℤ) - 52)).toNat = 52 - n.log2 := by omega
    simp only [Int.toNat_natCast, hT, hsh, Nat.shiftLeft_eq]
    rw [show (0 : ℤ) - ((52 - n.log2 : ℕ) : ℤ) = n.log2 - 52 by omega]
    exact roundWithAccuracy_normal hS1 hS2 (by omega) (by omega)
  show UnpackedFloat.unpack .binary64 (UInt64.ofBitVec (UnpackedFloat.pack .binary64 _)).toBitVec = _
  rw [UInt64.toBitVec_ofBitVec, hround]
  exact unpack_pack_finite hS1 hS2 (by omega) (by omega) _

end Sigh.Rounding

namespace Sigh.Decimal

theorem Binary.Rounds.range {b : Binary} {q : ℚ} (hb : b.Normal) (hq : b.Rounds q) :
    (2 : ℚ) ^ (-1023 : ℤ) < q ∧ q < 2 ^ (1024 : ℤ) := by
  obtain ⟨h1, h2⟩ := hq.binade hb
  have hE1 := hb.exponent_ge
  have hE2 := hb.exponent_le
  constructor
  · calc (2 : ℚ) ^ (-1023 : ℤ) ≤ 2 ^ (b.exponent + 51) := zpow_le_zpow_right₀ (by norm_num) (by omega)
      _ < q := h1
  · calc q < 2 ^ (b.exponent + 53) := h2
      _ ≤ 2 ^ (1024 : ℤ) := zpow_le_zpow_right₀ (by norm_num) (by omega)

end Sigh.Decimal

namespace Sigh.Rounding

open Decimal

theorem unpacked_ofScientific_eq {b : Binary} (hb : b.Normal) {m : Nat} (hm : 0 < m) {e : ℤ}
    (hq : b.Rounds (m * 10 ^ e)) :
    UnpackedFloat.ofScientific .binary64 m e =
      .finite .positive b.significand b.exponent hb.significand_pos := by
  obtain ⟨hlo, hhi⟩ := hq.range hb
  have hbits : (2 : ℤ) ^ Format.binary64.exponentBits = 2048 := rfl
  have hmq : (0 : ℚ) < m := by exact_mod_cast hm
  unfold UnpackedFloat.ofScientific
  rw [dif_neg hm.ne']
  split_ifs with hinf hzero hnonneg
  · exfalso
    rw [hbits] at hinf
    have h1 : (2 : ℚ) ^ (1024 : ℤ) ≤ 10 ^ e :=
      (zpow_le_zpow_right₀ (by norm_num) (by omega)).trans
        (zpow_le_zpow_left₀ (by omega) (by norm_num) (by norm_num))
    have h2 : (10 : ℚ) ^ e ≤ m * 10 ^ e :=
      le_mul_of_one_le_left (zpow_pos (by norm_num) _).le (by exact_mod_cast hm)
    linarith
  · exfalso
    rw [hbits] at hzero
    have hm2 : (m : ℚ) < 2 ^ ((m.log2 : ℤ) + 1) := by
      rw [show ((m.log2 : ℤ) + 1) = ((m.log2 + 1 : ℕ) : ℤ) by push_cast; ring, zpow_natCast]
      exact_mod_cast Nat.lt_log2_self
    have h10 : (10 : ℚ) ^ e ≤ 2 ^ e := by
      rw [show e = -((-e).toNat : ℤ) by omega, zpow_neg, zpow_neg, zpow_natCast, zpow_natCast]
      exact inv_anti₀ (by positivity) (pow_le_pow_left₀ (by norm_num) (by norm_num) _)
    have h1 : (m : ℚ) * 10 ^ e < 2 ^ (-1023 : ℤ) :=
      calc (m : ℚ) * 10 ^ e ≤ m * 2 ^ e := mul_le_mul_of_nonneg_left h10 hmq.le
        _ < 2 ^ ((m.log2 : ℤ) + 1) * 2 ^ e := mul_lt_mul_of_pos_right hm2 (zpow_pos (by norm_num) _)
        _ = 2 ^ ((m.log2 : ℤ) + 1 + e) := (zpow_add₀ two_ne_zero _ _).symm
        _ ≤ 2 ^ (-1023 : ℤ) := zpow_le_zpow_right₀ (by norm_num) (by omega)
    linarith
  · have hmb : Format.binary64.mantissaBits = 53 := rfl
    refine mul_eq hb _ _ ?_ ?_
    · rw [hmb, Nat.shiftLeft_eq]
      calc 2 ^ 52 ≤ m * 2 ^ 53 := by
            have := Nat.mul_le_mul_right (2 ^ 53) hm
            omega
        _ ≤ m * 2 ^ 53 * 10 ^ e.toNat := Nat.le_mul_of_pos_right _ (by positivity)
    · have hval : (((m <<< Format.binary64.mantissaBits : ℕ) : ℚ)) *
          2 ^ (-(Format.binary64.mantissaBits : ℤ)) * (((10 ^ e.toNat : ℕ) : ℚ) * 2 ^ (0 : ℤ)) =
          m * 10 ^ e := by
        have h10 : ((10 ^ e.toNat : ℕ) : ℚ) = 10 ^ e := by
          rw [Nat.cast_pow, Nat.cast_ofNat, ← zpow_natCast, Int.toNat_of_nonneg hnonneg]
        rw [hmb, Nat.shiftLeft_eq, zpow_neg, zpow_zero, mul_one, h10]
        push_cast
        field_simp
      rw [hval]
      exact hq
  · refine div_eq hb _ _ ?_
    have hval : (m : ℚ) * 2 ^ (0 : ℤ) / (((10 ^ (-e).toNat : ℕ) : ℚ) * 2 ^ (0 : ℤ)) =
        m * 10 ^ e := by
      have h10 : ((10 ^ (-e).toNat : ℕ) : ℚ) = (10 ^ e)⁻¹ := by
        rw [Nat.cast_pow, Nat.cast_ofNat, ← zpow_natCast, Int.toNat_of_nonneg (by omega),
          zpow_neg]
      rw [zpow_zero, mul_one, mul_one, h10, div_inv_eq_mul]
    rw [hval]
    exact hq

theorem ofScientific_eq {b : Binary} (hb : b.Normal) {m : Nat} {s : Bool} {n : Nat}
    (hq : b.Rounds (if s then (m : ℚ) / 10 ^ n else m * 10 ^ n)) :
    Float.ofScientific m s n =
      Float.ofModel (Float.Model.pack (.finite .positive b.significand b.exponent
        hb.significand_pos)) := by
  have hm : 0 < m := by
    rcases Nat.eq_zero_or_pos m with h0 | h0
    · subst h0
      have h0 : (if s then ((0 : ℕ) : ℚ) / 10 ^ n else (0 : ℕ) * 10 ^ n) = 0 := by
        split <;> simp
      rw [h0] at hq
      exact absurd (hq.range hb).1 (not_lt.mpr (zpow_pos (by norm_num) _).le)
    · exact h0
  unfold Float.ofScientific
  split
  · rename_i hfast
    have hn : n < Float.exactlyRepresentablePowersOfTen.size := by
      have : Float.exactlyRepresentablePowersOfTen.size = 23 := rfl
      omega
    obtain ⟨S₂, E₂, h₂, hpow, hval₂⟩ := powersOfTen_unpack n hn
    have hu := ofUInt64_unpack hm hfast.1
    have hone : (((m * 2 ^ (52 - m.log2) : ℕ) : ℚ)) * 2 ^ ((m.log2 : ℤ) - 52) = m := by
      have hL : m.log2 < 53 := (Nat.log2_lt hm.ne').mpr hfast.1
      rw [show ((m.log2 : ℤ) - 52) = -((52 - m.log2 : ℕ) : ℤ) by omega, zpow_neg, zpow_natCast]
      push_cast
      field_simp
    have hS := (shift_significand hm hfast.1).1
    cases s
    · simp only [Bool.false_eq_true, if_false] at hq ⊢
      show Float.ofModel (Float.Model.pack (UnpackedFloat.mul .binary64
        (Float.Model.ofUInt64 m.toUInt64).unpack
        Float.exactlyRepresentablePowersOfTen[n].toModel.unpack)) = _
      rw [hu, hpow, mul_eq hb _ h₂ (le_trans hS (Nat.le_mul_of_pos_right _ h₂))]
      rw [hone, hval₂]
      exact hq
    · simp only [if_true] at hq ⊢
      show Float.ofModel (Float.Model.pack (UnpackedFloat.div .binary64
        (Float.Model.ofUInt64 m.toUInt64).unpack
        Float.exactlyRepresentablePowersOfTen[n].toModel.unpack)) = _
      rw [hu, hpow, div_eq hb _ h₂]
      rw [hone, hval₂]
      exact hq
  · show Float.ofModel (Float.Model.pack (UnpackedFloat.ofScientific .binary64 m
      (if s then Int.negOfNat n else Int.ofNat n))) = _
    have hqe : (if s then (m : ℚ) / 10 ^ n else m * 10 ^ n) =
        m * 10 ^ (if s then Int.negOfNat n else Int.ofNat n) := by
      cases s
      · simp
      · simp [div_eq_mul_inv, Int.negOfNat_eq, zpow_neg]
    rw [unpacked_ofScientific_eq hb hm (hqe ▸ hq)]

end Sigh.Rounding

namespace Sigh.Decimal

open Rounding

theorem digitCount_bounds {m : Nat} (hm : 0 < m) :
    10 ^ (digitCount m - 1) ≤ m ∧ m < 10 ^ digitCount m := by
  have hpos : 0 < digitCount m := Nat.length_toDigits_pos
  refine ⟨?_, (Nat.length_toDigits_le_iff (by norm_num) hpos).mp le_rfl⟩
  rcases Nat.lt_or_ge 1 (digitCount m) with h | h
  · by_contra hlt
    have := (Nat.length_toDigits_le_iff (b := 10) (n := m) (by norm_num) (by omega)).mpr
      (Nat.lt_of_not_le hlt)
    unfold digitCount at h this
    omega
  · rw [show digitCount m - 1 = 0 by omega, pow_zero]
    exact hm

theorem ofDecimal_eq {b : Binary} (hb : b.Normal) {m : Nat} {e : Int}
    (hq : b.Rounds (m * 10 ^ e)) :
    ofDecimal false m e =
      Float.ofModel (Float.Model.pack (.finite .positive b.significand b.exponent
        hb.significand_pos)) := by
  obtain ⟨hlo, hhi⟩ := hq.range hb
  have hm : 0 < m := by
    rcases Nat.eq_zero_or_pos m with h0 | h0
    · subst h0
      simp only [Nat.cast_zero, zero_mul] at hlo
      exact absurd hlo (not_lt.mpr (zpow_pos (by norm_num) _).le)
    · exact h0
  obtain ⟨hd1, hd2⟩ := digitCount_bounds hm
  have hd0 : 0 < digitCount m := Nat.length_toDigits_pos
  have hp : (0 : ℚ) < 10 ^ e := zpow_pos (by norm_num) _
  have hup : e + digitCount m - 1 < 309 := by
    have h1 : (10 : ℚ) ^ (e + digitCount m - 1) ≤ m * 10 ^ e := by
      rw [show e + digitCount m - 1 = ((digitCount m - 1 : ℕ) : ℤ) + e by omega, zpow_add₀ (by norm_num), zpow_natCast]
      exact mul_le_mul_of_nonneg_right (by exact_mod_cast hd1) hp.le
    have h2 : (2 : ℚ) ^ (1024 : ℤ) < 10 ^ (309 : ℤ) := by
      rw [zpow_ofNat, zpow_ofNat]
      exact_mod_cast (show 2 ^ 1024 < 10 ^ 309 by decide +kernel)
    exact (zpow_lt_zpow_iff_right₀ (by norm_num : (1 : ℚ) < 10)).mp
      (h1.trans_lt (hhi.trans h2))
  have hdown : -309 < e + digitCount m := by
    have h1 : (m : ℚ) * 10 ^ e < 10 ^ (e + digitCount m) := by
      rw [add_comm, zpow_add₀ (by norm_num), zpow_natCast]
      exact mul_lt_mul_of_pos_right (by exact_mod_cast hd2) hp
    have h2 : (10 : ℚ) ^ (-309 : ℤ) < 2 ^ (-1023 : ℤ) := by
      rw [zpow_neg, zpow_neg, zpow_ofNat, zpow_ofNat]
      apply inv_strictAnti₀ (by positivity)
      exact_mod_cast (show 2 ^ 1023 < 10 ^ 309 by decide +kernel)
    exact (zpow_lt_zpow_iff_right₀ (by norm_num : (1 : ℚ) < 10)).mp
      (h2.trans (hlo.trans h1))
  have hval : (if decide (e < 0) then (m : ℚ) / 10 ^ e.natAbs else m * 10 ^ e.natAbs) =
      m * 10 ^ e := by
    by_cases he : e < 0
    · rw [if_pos (decide_eq_true he), show e = -(e.natAbs : ℤ) by omega, zpow_neg, zpow_natCast,
        div_eq_mul_inv, Int.natAbs_neg, Int.natAbs_natCast]
    · rw [if_neg (by simpa using he), show e = (e.natAbs : ℤ) by omega, zpow_natCast,
        Int.natAbs_natCast]
  unfold ofDecimal
  rw [if_neg Bool.false_ne_true, if_neg hm.ne', if_neg (by omega), if_neg (by omega)]
  exact ofScientific_eq hb (hval ▸ hq)

end Sigh.Decimal
