import Sigh.Decimal.Layout

namespace Sigh.Arith

/-- The bit pattern of the positive value `r * 2 ^ e`, which is a binary64 value: normal when its
leading bit has weight at least `2 ^ -1022`, subnormal below. -/
def exactBits (r : Nat) (e : Int) : UInt64 :=
  if r = 0 then 0
  else
    let k := Nat.log2 r
    let top : Int := k + e
    if top ≥ -1022 then
      let fraction := if k ≥ 52 then r / Nat.pow 2 (k - 52) else r * Nat.pow 2 (52 - k)
      ((top + 1023).toNat * Nat.pow 2 52 + (fraction - Nat.pow 2 52)).toUInt64
    else
      (r * Nat.pow 2 (e + 1074).toNat).toUInt64

open Decimal in
/-- The remainder of `a` by `b` with the sign of `a`. -/
def truncRem (a b : Float) : Float :=
  match Kind.ofBits a.toBits, Kind.ofBits b.toBits with
  | .nan, _ | _, .nan | .infinite _, _ | _, .zero _ => Float.ofBits 0x7FF8000000000000
  | .zero _, _ | .finite .., .infinite _ => a
  | .finite negative x, .finite _ y =>
    let e := min x.exponent y.exponent
    let p := x.significand * Nat.pow 2 (x.exponent - e).toNat
    let q := y.significand * Nat.pow 2 (y.exponent - e).toNat
    let magnitude := exactBits (p % q) e
    Float.ofBits (if negative then magnitude ||| 0x8000000000000000 else magnitude)

example : (truncRem (Float.ofBits 0x4016000000000000) (Float.ofBits 0x4000000000000000)).toBits =
    0x3FF8000000000000 := by decide +kernel
example : (truncRem (Float.ofBits 0xC010000000000000) (Float.ofBits 0x4000000000000000)).toBits =
    0x8000000000000000 := by decide +kernel

end Sigh.Arith
