import Mathlib
import Sigh.Value.Ops

theorem Int64.div_eq_ofInt_tdiv (a b : Int64) : a / b = Int64.ofInt (a.toInt.tdiv b.toInt) :=
  Int64.toInt_inj.mp (by rw [Int64.toInt_div, Int64.toInt_ofInt])

theorem Int64.mod_eq_ofInt_tmod (a b : Int64) : a % b = Int64.ofInt (a.toInt.tmod b.toInt) := by
  rw [← Int64.toInt_mod, Int64.ofInt_toInt]

theorem Int64.div_mul_add_mod (a b : Int64) : a / b * b + a % b = a := by
  apply Int64.toInt_inj.mp
  rw [Int64.toInt_add, Int64.toInt_mul, Int64.toInt_div, Int64.toInt_mod, Int.bmod_mul_bmod,
    Int.bmod_add_bmod, Int.tdiv_mul_add_tmod]
  simp

namespace Sigh

section Integers

variable (text : Value → String) (strict : Bool) (a b : Int64)

theorem arithmetic_int_div :
    arithmetic text .div (.int a) (.int b) strict =
      if b = 0 then .error .divisionByZero else .ok (.int (a / b)) := by
  simp [arithmetic]

theorem arithmetic_int_rem :
    arithmetic text .rem (.int a) (.int b) strict =
      if b = 0 then .error .divisionByZero else .ok (.int (a % b)) := by
  simp [arithmetic]

/-- Arithmetic on two integers is exact arithmetic over `ℤ` wrapped to 64 bits, with truncating
division and remainder that fail exactly on a zero divisor, for either setting of `strict`; and a
nonzero divisor rebuilds the dividend as `(a / b) * b + a % b` in the same arithmetic. -/
theorem integer_arithmetic_wraps_exactly :
    arithmetic text .add (.int a) (.int b) strict =
        .ok (.int (Int64.ofInt (a.toInt + b.toInt))) ∧
      arithmetic text .sub (.int a) (.int b) strict =
        .ok (.int (Int64.ofInt (a.toInt - b.toInt))) ∧
      arithmetic text .mul (.int a) (.int b) strict =
        .ok (.int (Int64.ofInt (a.toInt * b.toInt))) ∧
      arithmetic text .div (.int a) (.int b) strict =
        (if b = 0 then .error .divisionByZero
        else .ok (.int (Int64.ofInt (a.toInt.tdiv b.toInt)))) ∧
      arithmetic text .rem (.int a) (.int b) strict =
        (if b = 0 then .error .divisionByZero
        else .ok (.int (Int64.ofInt (a.toInt.tmod b.toInt)))) ∧
      (b ≠ 0 → ∃ q r p, arithmetic text .div (.int a) (.int b) strict = .ok q ∧
        arithmetic text .rem (.int a) (.int b) strict = .ok r ∧
        arithmetic text .mul q (.int b) strict = .ok p ∧
        arithmetic text .add p r strict = .ok (.int a)) := by
  refine ⟨by simp [arithmetic], by simp [arithmetic], by simp [arithmetic],
    by rw [← Int64.div_eq_ofInt_tdiv, arithmetic_int_div],
    by rw [← Int64.mod_eq_ofInt_tmod, arithmetic_int_rem], fun hb => ?_⟩
  refine ⟨.int (a / b), .int (a % b), .int (a / b * b), ?_, ?_, rfl, ?_⟩
  · simp [arithmetic_int_div, hb]
  · simp [arithmetic_int_rem, hb]
  · change Except.ok (Value.int (a / b * b + a % b)) = _
    rw [Int64.div_mul_add_mod]

/-- The one quotient that overflows: the least integer over `-1` is itself, and the remainder 0
still rebuilds it. -/
theorem minimum_over_minus_one_rebuilds :
    (-1 : Int64) ≠ 0 ∧ ∃ q r p,
      arithmetic (fun _ => "") .div (.int Int64.minValue) (.int (-1)) false = .ok q ∧
      arithmetic (fun _ => "") .rem (.int Int64.minValue) (.int (-1)) false = .ok r ∧
      arithmetic (fun _ => "") .mul q (.int (-1)) false = .ok p ∧
      arithmetic (fun _ => "") .add p r false = .ok (.int Int64.minValue) := by
  have hb : (-1 : Int64) ≠ 0 := by decide
  exact ⟨hb, (integer_arithmetic_wraps_exactly (fun _ => "") false Int64.minValue (-1)).2.2.2.2.2 hb⟩

example : arithmetic (fun _ => "") .div (.int Int64.minValue) (.int (-1)) false =
    .ok (.int Int64.minValue) := rfl
example : arithmetic (fun _ => "") .rem (.int Int64.minValue) (.int (-1)) true =
    .ok (.int 0) := rfl

end Integers

end Sigh
