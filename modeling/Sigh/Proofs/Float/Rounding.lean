import Mathlib
import Sigh.Decimal.Shortest

open Float.Model Float.Model.UnpackedFloat

namespace Sigh.Rounding

/-- Where a value lies above a mantissa, as an accuracy tells it: exactly on it, below the half,
on the half, or above the half, and always less than one unit above. -/
def Describes : Accuracy → ℚ → Prop
  | .exact, δ => δ = 0
  | .inexact .lt, δ => 0 < δ ∧ δ < 1 / 2
  | .inexact .eq, δ => δ = 1 / 2
  | .inexact .gt, δ => 1 / 2 < δ ∧ δ < 1

theorem Describes.nonneg {acc : Accuracy} {δ : ℚ} (h : Describes acc δ) : 0 ≤ δ := by
  rcases acc with _ | ⟨_ | _ | _⟩ <;> simp only [Describes] at h <;> linarith [h]

theorem Describes.lt_one {acc : Accuracy} {δ : ℚ} (h : Describes acc δ) : δ < 1 := by
  rcases acc with _ | ⟨_ | _ | _⟩ <;> simp only [Describes] at h <;> linarith [h]

/-- An extended mantissa stands for `r`: its mantissa is the whole part of `r`, and its round and
sticky bits say where the rest lies. -/
def Represents (em : ExtendedMantissa) (r : ℚ) : Prop :=
  Describes em.accuracy (r - em.mantissa)

theorem represents_ofMantissaAndAccuracy {m : Nat} {acc : Accuracy} {δ : ℚ}
    (h : Describes acc δ) : Represents (.ofMantissaAndAccuracy m acc) (m + δ) := by
  rcases acc with _ | ⟨_ | _ | _⟩ <;>
    simpa [Represents, ExtendedMantissa.ofMantissaAndAccuracy, ExtendedMantissa.accuracy] using h

theorem Represents.shiftRightOne {em : ExtendedMantissa} {r : ℚ} (h : Represents em r) :
    Represents em.shiftRightOne (r / 2) := by
  obtain ⟨m, rb, sb⟩ := em
  have hm : (m : ℚ) = 2 * ((m / 2 : ℕ) : ℚ) + ((m % 2 : ℕ) : ℚ) := by
    exact_mod_cast (Nat.div_add_mod m 2).symm
  have key : r / 2 - ((m / 2 : ℕ) : ℚ) = (((m % 2 : ℕ) : ℚ) + (r - m)) / 2 := by
    rw [hm]; ring
  simp only [Represents, ExtendedMantissa.shiftRightOne] at h ⊢
  rw [key]
  rcases Nat.mod_two_eq_zero_or_one m with h2 | h2 <;> rw [h2] at * <;>
    cases rb <;> cases sb <;> simp_all [ExtendedMantissa.accuracy, Describes] <;> grind

theorem Represents.shiftRight {em : ExtendedMantissa} {r : ℚ} (h : Represents em r) :
    ∀ n : Nat, Represents (em >>> n) (r / 2 ^ n)
  | 0 => by
    rw [pow_zero, div_one]
    exact h
  | n + 1 => by
    have hn := (h.shiftRight n).shiftRightOne
    rw [pow_succ, ← div_div]
    exact hn

/-- `N` is a nearest whole number to `r`, and the even one of two equally near. -/
def Nearest (N : Nat) (r : ℚ) : Prop :=
  if N % 2 = 0 then (N : ℚ) - 1 / 2 ≤ r ∧ r ≤ N + 1 / 2 else (N : ℚ) - 1 / 2 < r ∧ r < N + 1 / 2

theorem Represents.roundedMantissa_eq {em : ExtendedMantissa} {r : ℚ} (h : Represents em r)
    {N : Nat} (hN : Nearest N r) : em.roundedMantissa = N := by
  obtain ⟨m, rb, sb⟩ := em
  simp only [Represents] at h
  have hlo : (N : ℚ) - 1 / 2 ≤ r := by
    unfold Nearest at hN
    split at hN <;> linarith [hN.1]
  have hhi : r ≤ N + 1 / 2 := by
    unfold Nearest at hN
    split at hN <;> linarith [hN.2]
  cases rb <;> cases sb <;>
    simp only [ExtendedMantissa.roundedMantissa, ExtendedMantissa.accuracy, Describes,
      Accuracy.roundToNearestEven] at h ⊢
  · have h1 : N < m + 1 := by exact_mod_cast (show (N : ℚ) < m + 1 by linarith)
    have h2 : m < N + 1 := by exact_mod_cast (show (m : ℚ) < N + 1 by linarith)
    omega
  · have h1 : N < m + 1 := by exact_mod_cast (show (N : ℚ) < m + 1 by linarith)
    have h2 : m < N + 1 := by exact_mod_cast (show (m : ℚ) < N + 1 by linarith)
    omega
  · have h1 : N < m + 2 := by exact_mod_cast (show (N : ℚ) < m + 2 by linarith)
    have h2 : m < N + 1 := by exact_mod_cast (show (m : ℚ) < N + 1 by linarith)
    have heven : N % 2 = 0 := by
      by_contra hodd
      simp only [Nearest, hodd, if_false] at hN
      have h3 : N < m + 1 := by exact_mod_cast (show (N : ℚ) < m + 1 by linarith [hN.1])
      have h4 : m < N := by exact_mod_cast (show (m : ℚ) < N by linarith [hN.2])
      omega
    omega
  · have h1 : N < m + 2 := by exact_mod_cast (show (N : ℚ) < m + 2 by linarith)
    have h2 : m + 1 < N + 1 := by exact_mod_cast (show (m : ℚ) + 1 < N + 1 by linarith)
    omega

theorem Represents.mantissa_eq {em : ExtendedMantissa} {n : Nat} (h : Represents em n) :
    em.mantissa = n := by
  have h0 := h.nonneg
  have h1 := h.lt_one
  have ha : em.mantissa ≤ n := by exact_mod_cast (show (em.mantissa : ℚ) ≤ n by linarith)
  have hb : n < em.mantissa + 1 := by exact_mod_cast (show (n : ℚ) < em.mantissa + 1 by linarith)
  omega

end Sigh.Rounding

namespace Sigh.Decimal

/-- The value `significand * 2 ^ exponent`. -/
def Binary.value (b : Binary) : ℚ := (b.significand : ℚ) * 2 ^ b.exponent

/-- A normal binary64 magnitude: 53 significant bits, an exponent in the normal range, and a
narrow binade below exactly at the smallest significand of every binade but the lowest. -/
structure Binary.Normal (b : Binary) : Prop where
  significand_ge : 2 ^ 52 ≤ b.significand
  significand_lt : b.significand < 2 ^ 53
  exponent_ge : -1074 ≤ b.exponent
  exponent_le : b.exponent ≤ 971
  narrow_iff : b.narrowBelow = true ↔ b.significand = 2 ^ 52 ∧ -1074 < b.exponent

/-- How far below the significand, in units of the last place, the numbers that round to it
reach: a quarter where the binade below is narrow, else a half. -/
def Binary.gapBelow (b : Binary) : ℚ := if b.narrowBelow then 1 / 4 else 1 / 2

/-- The numbers that round to `b`, ties to even: from `gapBelow` units below it to half a unit
above it, the ends included when the significand is even. -/
def Binary.Rounds (b : Binary) (q : ℚ) : Prop :=
  let lo := (b.significand - b.gapBelow) * 2 ^ b.exponent
  let hi := (b.significand + (1 : ℚ) / 2) * 2 ^ b.exponent
  if b.significand % 2 = 0 then lo ≤ q ∧ q ≤ hi else lo < q ∧ q < hi

namespace Binary

open Rounding

variable {b : Binary} {q : ℚ}

theorem gapBelow_le : b.gapBelow ≤ 1 / 2 := by
  unfold gapBelow
  split <;> norm_num

theorem Rounds.bounds (hq : b.Rounds q) :
    (b.significand - b.gapBelow) * 2 ^ b.exponent ≤ q ∧
      q ≤ (b.significand + (1 : ℚ) / 2) * 2 ^ b.exponent := by
  unfold Rounds at hq
  split at hq
  · exact hq
  · exact ⟨hq.1.le, hq.2.le⟩

theorem Rounds.nearest (hq : b.Rounds q) : Nearest b.significand (q / 2 ^ b.exponent) := by
  have hp : (0 : ℚ) < 2 ^ b.exponent := zpow_pos (by norm_num) _
  have hlo : ((b.significand : ℚ) - 1 / 2) * 2 ^ b.exponent ≤
      (b.significand - b.gapBelow) * 2 ^ b.exponent :=
    mul_le_mul_of_nonneg_right (by linarith [gapBelow_le (b := b)]) hp.le
  unfold Rounds at hq
  unfold Nearest
  split at hq <;> rename_i heven <;> simp only [heven, if_true, if_false]
  · exact ⟨(le_div_iff₀ hp).mpr (hlo.trans hq.1), (div_le_iff₀ hp).mpr hq.2⟩
  · exact ⟨(lt_div_iff₀ hp).mpr (hlo.trans_lt hq.1), (div_lt_iff₀ hp).mpr hq.2⟩

theorem Normal.significand_pos (hb : b.Normal) : 0 < b.significand :=
  lt_of_lt_of_le (by norm_num) hb.significand_ge

theorem Normal.log2_significand (hb : b.Normal) : b.significand.log2 = 52 := by
  have h0 : b.significand ≠ 0 := hb.significand_pos.ne'
  have h1 := (Nat.le_log2 h0).mpr hb.significand_ge
  have h2 := (Nat.log2_lt h0).mpr hb.significand_lt
  omega

theorem Rounds.binade (hb : b.Normal) (hq : b.Rounds q) :
    (2 : ℚ) ^ (b.exponent + 51) < q ∧ q < 2 ^ (b.exponent + 53) := by
  have hp : (0 : ℚ) < 2 ^ b.exponent := zpow_pos (by norm_num) _
  have hS1 : (2 : ℚ) ^ 52 ≤ b.significand := by exact_mod_cast hb.significand_ge
  have hS2 : (b.significand : ℚ) + 1 ≤ 2 ^ 53 := by exact_mod_cast hb.significand_lt
  have hgap := gapBelow_le (b := b)
  obtain ⟨hlo, hhi⟩ := hq.bounds
  rw [zpow_add₀ two_ne_zero, zpow_add₀ two_ne_zero, mul_comm (2 ^ b.exponent : ℚ),
    mul_comm (2 ^ b.exponent : ℚ)]
  constructor
  · calc (2 : ℚ) ^ (51 : ℤ) * 2 ^ b.exponent
        < (b.significand - b.gapBelow) * 2 ^ b.exponent := by
          apply mul_lt_mul_of_pos_right _ hp
          rw [show (2 : ℚ) ^ (51 : ℤ) = 2 ^ 52 / 2 by norm_num]
          linarith
      _ ≤ q := hlo
  · calc q ≤ (b.significand + (1 : ℚ) / 2) * 2 ^ b.exponent := hhi
      _ < 2 ^ (53 : ℤ) * 2 ^ b.exponent := by
          apply mul_lt_mul_of_pos_right _ hp
          rw [show (2 : ℚ) ^ (53 : ℤ) = 2 ^ 53 by norm_num]
          linarith

end Binary

end Sigh.Decimal

namespace Sigh.Rounding

open Decimal

theorem totalExponent_bounds {M : Nat} {F : Int} {δ : ℚ} (hM : 0 < M) (h0 : 0 ≤ δ)
    (h1 : δ < 1) :
    (2 : ℚ) ^ (totalExponent M F - 1) ≤ (M + δ) * 2 ^ F ∧
      (M + δ) * 2 ^ F < 2 ^ totalExponent M F := by
  have hp : (0 : ℚ) < 2 ^ F := zpow_pos (by norm_num) _
  have hlo : ((2 ^ M.log2 : ℕ) : ℚ) ≤ M := by exact_mod_cast Nat.log2_self_le hM.ne'
  have hhi : (M : ℚ) + 1 ≤ ((2 ^ (M.log2 + 1) : ℕ) : ℚ) := by exact_mod_cast Nat.lt_log2_self
  have hT : totalExponent M F = ((M.log2 : ℕ) : ℤ) + 1 + F := rfl
  rw [hT, show ((M.log2 : ℕ) : ℤ) + 1 + F - 1 = (M.log2 : ℕ) + F by ring,
    show ((M.log2 : ℕ) : ℤ) + 1 + F = ((M.log2 + 1 : ℕ) : ℤ) + F by push_cast; ring,
    zpow_add₀ two_ne_zero, zpow_add₀ two_ne_zero, zpow_natCast, zpow_natCast]
  push_cast at hlo hhi
  constructor
  · exact mul_le_mul_of_nonneg_right (by linarith) hp.le
  · exact mul_lt_mul_of_pos_right (by linarith) hp

theorem represents_shiftToExponent {M : Nat} {F t : Int} {acc : Accuracy} {δ : ℚ}
    (hδ : Describes acc δ) (hF : F ≤ t) :
    (shiftToExponent M F acc t).2 = t ∧
      Represents (shiftToExponent M F acc t).1 ((M + δ) * 2 ^ F / 2 ^ t) := by
  have hn : ((t - F).toNat : ℤ) = t - F := Int.toNat_of_nonneg (by omega)
  refine ⟨by simp only [shiftToExponent]; omega, ?_⟩
  have hval : ((M : ℚ) + δ) * 2 ^ F / 2 ^ t = (M + δ) / 2 ^ (t - F).toNat := by
    rw [← zpow_natCast, hn, zpow_sub₀ two_ne_zero]
    field_simp
  rw [hval]
  exact (represents_ofMantissaAndAccuracy hδ).shiftRight _

theorem log2_mul_two_pow {S : Nat} (hS : S.log2 = 52) (k : Nat) : (S * 2 ^ k).log2 = 52 + k := by
  have h0 : S ≠ 0 := by
    rintro rfl
    simp at hS
  have h1 : 2 ^ 52 ≤ S := by
    have := Nat.log2_self_le h0
    rwa [hS] at this
  have h2 : S < 2 ^ 53 := by
    have := Nat.lt_log2_self (n := S)
    rwa [hS] at this
  have hk : S * 2 ^ k ≠ 0 := by positivity
  have h3 := (Nat.le_log2 hk).mpr (show 2 ^ (52 + k) ≤ S * 2 ^ k by
    rw [pow_add]; exact Nat.mul_le_mul_right _ h1)
  have h4 := (Nat.log2_lt hk).mpr (show S * 2 ^ k < 2 ^ (53 + k) by
    rw [pow_add]; exact Nat.mul_lt_mul_of_pos_right h2 (by positivity))
  omega

theorem shiftToTargetExponent_exact {S : Nat} (hS : S.log2 = 52) (k : Nat) {e : Int}
    (he : -1074 ≤ e + k) :
    (shiftToTargetExponent .binary64 (S * 2 ^ k) e .exact).2 = e + k ∧
      (shiftToTargetExponent .binary64 (S * 2 ^ k) e .exact).1.mantissa = S := by
  have ht : Format.binary64.targetExponent (totalExponent (S * 2 ^ k) e) = e + k := by
    show max ((((S * 2 ^ k).log2 : ℕ) : ℤ) + 1 + e - 53) (-1074) = e + k
    rw [log2_mul_two_pow hS]
    omega
  obtain ⟨h1, h2⟩ := represents_shiftToExponent (M := S * 2 ^ k) (F := e)
    (show Describes .exact (0 : ℚ) from rfl) (show e ≤ e + k by omega)
  unfold shiftToTargetExponent
  rw [ht]
  have hval : ((S * 2 ^ k : ℕ) + (0 : ℚ)) * 2 ^ e / 2 ^ (e + k) = (S : ℚ) := by
    rw [zpow_add₀ two_ne_zero, zpow_natCast, add_zero]
    push_cast
    field_simp
  rw [hval] at h2
  exact ⟨h1, h2.mantissa_eq⟩

theorem roundWithAccuracy_eq_finite {spec : Format} {s : Sign} {M : Nat} {F : Int}
    {acc : Accuracy} {em₁ em₂ : ExtendedMantissa} {e₁ e₂ : Int}
    (h1 : shiftToTargetExponent spec M F acc = (em₁, e₁))
    (h2 : shiftToTargetExponent spec em₁.roundedMantissa e₁ .exact = (em₂, e₂))
    (hpos : 0 < em₂.mantissa) :
    roundWithAccuracy spec s M F acc = .finite s em₂.mantissa e₂ hpos := by
  unfold roundWithAccuracy
  rw [h1]
  dsimp only
  rw [h2]
  dsimp only
  rw [dif_neg hpos.ne']

theorem roundWithAccuracy_eq {b : Binary} (hb : b.Normal) (s : Sign) {M : Nat} {F : Int}
    {acc : Accuracy} {δ : ℚ} (hδ : Describes acc δ) (hM : 0 < M)
    (hF : F ≤ Format.binary64.targetExponent (totalExponent M F))
    (hq : b.Rounds ((M + δ) * 2 ^ F)) :
    roundWithAccuracy .binary64 s M F acc =
      .finite s b.significand b.exponent hb.significand_pos := by
  obtain ⟨hT1, hT2⟩ := totalExponent_bounds (F := F) hM hδ.nonneg hδ.lt_one
  obtain ⟨hB1, hB2⟩ := hq.binade hb
  have hTle : totalExponent M F ≤ b.exponent + 53 := by
    have := (zpow_lt_zpow_iff_right₀ (by norm_num : (1 : ℚ) < 2)).mp (hT1.trans_lt hB2)
    omega
  have hTge : b.exponent + 52 ≤ totalExponent M F := by
    have := (zpow_lt_zpow_iff_right₀ (by norm_num : (1 : ℚ) < 2)).mp (hB1.trans hT2)
    omega
  have ht : Format.binary64.targetExponent (totalExponent M F) =
      max (totalExponent M F - 53) (-1074) := rfl
  have hS := hb.log2_significand
  have hE := hb.exponent_ge
  rcases h1 : shiftToTargetExponent .binary64 M F acc with ⟨em₁, e₁⟩
  obtain ⟨he₁, hrep⟩ := represents_shiftToExponent (M := M) hδ hF
  rw [show shiftToExponent M F acc _ = (em₁, e₁) from h1] at he₁ hrep
  dsimp only at he₁ hrep
  rw [← he₁] at hrep
  rcases h2 : shiftToTargetExponent .binary64 em₁.roundedMantissa e₁ .exact with ⟨em₂, e₂⟩
  obtain ⟨k, hk, hround, hE₁⟩ : ∃ k : Nat, k ≤ 1 ∧ em₁.roundedMantissa = b.significand * 2 ^ k ∧
      e₁ + k = b.exponent := by
    by_cases hcase : e₁ = b.exponent
    · refine ⟨0, by omega, ?_, by omega⟩
      rw [pow_zero, mul_one]
      rw [hcase] at hrep
      exact hrep.roundedMantissa_eq hq.nearest
    · have hTe : totalExponent M F = b.exponent + 52 := by omega
      have he₁' : e₁ = b.exponent - 1 := by omega
      have hp : (0 : ℚ) < 2 ^ b.exponent := zpow_pos (by norm_num) _
      have hlow : (M + δ) * 2 ^ F < (2 : ℚ) ^ 52 * 2 ^ b.exponent := by
        have hpow : (2 : ℚ) ^ (b.exponent + 52) = 2 ^ 52 * 2 ^ b.exponent := by
          rw [zpow_add₀ two_ne_zero, mul_comm]
          norm_num
        rw [hTe, hpow] at hT2
        exact hT2
      have hSeq : b.significand = 2 ^ 52 := by
        have hlo := hq.bounds.1
        have hlt : (b.significand : ℚ) - b.gapBelow < 2 ^ 52 :=
          lt_of_mul_lt_mul_right (hlo.trans_lt hlow) hp.le
        have : (b.significand : ℚ) < 2 ^ 52 + 1 := by linarith [Binary.gapBelow_le (b := b)]
        have : b.significand < 2 ^ 52 + 1 := by exact_mod_cast this
        have := hb.significand_ge
        omega
      have hgap : b.gapBelow = 1 / 4 := by
        have : b.narrowBelow = true := hb.narrow_iff.mpr ⟨hSeq, by omega⟩
        simp [Binary.gapBelow, this]
      refine ⟨1, le_refl _, hrep.roundedMantissa_eq ?_, by omega⟩
      have hsplit : (M + δ) * 2 ^ F / 2 ^ e₁ = 2 * ((M + δ) * 2 ^ F / 2 ^ b.exponent) := by
        rw [he₁', zpow_sub₀ two_ne_zero]
        field_simp
      have hlo := hq.bounds.1
      rw [hgap, hSeq] at hlo
      have hlo' : (2 : ℚ) ^ 52 - 1 / 4 ≤ (M + δ) * 2 ^ F / 2 ^ b.exponent := by
        rw [le_div_iff₀ hp]
        exact_mod_cast hlo
      have hhi' : (M + δ) * 2 ^ F / 2 ^ b.exponent < 2 ^ 52 := by
        rw [div_lt_iff₀ hp]
        exact_mod_cast hlow
      simp only [Nearest, hSeq, hsplit]
      norm_num
      constructor <;> linarith
  obtain ⟨h2e, h2m⟩ := shiftToTargetExponent_exact hS k (e := e₁) (by omega)
  rw [← hround, h2] at h2e h2m
  dsimp only at h2e h2m
  rw [roundWithAccuracy_eq_finite h1 h2 (by rw [h2m]; exact hb.significand_pos)]
  congr 1
  omega

end Sigh.Rounding
