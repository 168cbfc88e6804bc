import Sigh.Proofs.Float.Rounding
import Sigh.Decimal.Layout

open Float.Model Float.Model.UnpackedFloat

namespace Sigh.Decimal

theorem toNat_packComponents (s : Sign) (e : BitVec 11) (m : BitVec 52) :
    (packComponents .binary64 s e m).toNat =
      s.toBitVec.toNat * 2 ^ 63 + e.toNat * 2 ^ 52 + m.toNat := by
  show (s.toBitVec ++ e ++ m).toNat = _
  rw [BitVec.toNat_append, BitVec.toNat_append, ← Nat.shiftLeft_add_eq_or_of_lt e.isLt,
    ← Nat.shiftLeft_add_eq_or_of_lt m.isLt, Nat.shiftLeft_eq, Nat.shiftLeft_eq]
  ring

theorem unpackSign_packComponents (s : Sign) (e : BitVec 11) (m : BitVec 52) :
    unpackSign (packComponents .binary64 s e m) = s.toBitVec := by
  apply BitVec.eq_of_toNat_eq
  have hm := m.isLt
  have he := e.isLt
  have hs : s.toBitVec.toNat < 2 := s.toBitVec.isLt
  have hpack := toNat_packComponents s e m
  have hsign : (unpackSign (packComponents .binary64 s e m)).toNat =
      (packComponents .binary64 s e m).toNat / 2 ^ 63 % 2 := by
    simp [unpackSign, BitVec.extractLsb, BitVec.extractLsb', Nat.shiftRight_eq_div_pow]
  rw [hsign, hpack]
  omega

theorem ofBitVec_toBitVec (s : Sign) : Sign.ofBitVec s.toBitVec = s := by
  cases s <;> rfl

theorem exponentBias_binary64 : Format.binary64.exponentBias = 1023 := rfl

theorem pack_finite {s : Sign} {S : Nat} {E : Int} (hS1 : 2 ^ 52 ≤ S) (hS2 : S < 2 ^ 53)
    (hE1 : -1074 ≤ E) (hE2 : E ≤ 971) (h : 0 < S) :
    UnpackedFloat.pack .binary64 (.finite s S E h) =
      packComponents .binary64 s (BitVec.ofNat 11 (E + 1075).toNat) (BitVec.ofNat 52 S) := by
  have hlog : S.log2 = 52 := by
    have h0 : S ≠ 0 := by omega
    have h1 := (Nat.le_log2 h0).mpr hS1
    have h2 := (Nat.log2_lt h0).mpr hS2
    omega
  have hb : (E + (Format.binary64.exponentBias : Int) +
      (Format.binary64.mantissaBitsWithoutImplicit : Int)).toNat = (E + 1075).toNat := by
    rw [exponentBias_binary64]
    show (E + (1023 : Nat) + (52 : Nat)).toNat = _
    congr 1
    push_cast
    ring
  unfold UnpackedFloat.pack
  simp only [hlog, hb]
  rw [if_neg (by show ¬ (2 ^ 11 ≤ (E + 1075).toNat + 1); omega),
    if_pos (show 52 + 1 = Format.binary64.mantissaBits from rfl)]

theorem unpack_pack_finite {s : Sign} {S : Nat} {E : Int} (hS1 : 2 ^ 52 ≤ S) (hS2 : S < 2 ^ 53)
    (hE1 : -1074 ≤ E) (hE2 : E ≤ 971) (h : 0 < S) :
    UnpackedFloat.unpack .binary64 (UnpackedFloat.pack .binary64 (.finite s S E h)) =
      .finite s S E h := by
  rw [pack_finite hS1 hS2 hE1 hE2 h]
  have hexp : (BitVec.ofNat 11 (E + 1075).toNat).toNat = (E + 1075).toNat := by
    rw [BitVec.toNat_ofNat, Nat.mod_eq_of_lt (by omega)]
  have hne1 : BitVec.ofNat 11 (E + 1075).toNat ≠ -1#11 := by
    intro hh
    have := congrArg BitVec.toNat hh
    rw [hexp] at this
    simp only [BitVec.neg_one_eq_allOnes, BitVec.toNat_allOnes] at this
    omega
  have hne0 : BitVec.ofNat 11 (E + 1075).toNat ≠ 0#11 := by
    intro hh
    have := congrArg BitVec.toNat hh
    rw [hexp] at this
    simp only [BitVec.toNat_zero] at this
    omega
  have hmant : (1#1 ++ BitVec.ofNat 52 S).toNat = S := by
    rw [BitVec.toNat_append, ← Nat.shiftLeft_add_eq_or_of_lt (BitVec.isLt _), Nat.shiftLeft_eq,
      BitVec.toNat_ofNat, BitVec.toNat_ofNat]
    omega
  unfold UnpackedFloat.unpack
  simp only [unpackMantissa_packComponents, unpackExponent_packComponents,
    unpackSign_packComponents, ofBitVec_toBitVec, hne1, hne0, if_false, hexp]
  rw [UnpackedFloat.finite.injEq, exponentBias_binary64]
  exact ⟨rfl, hmant, by omega⟩

theorem toNat_unpackMantissa (c : BitVec 64) :
    (@unpackMantissa .binary64 c).toNat = c.toNat % 2 ^ 52 := by
  simp [unpackMantissa, BitVec.extractLsb, BitVec.extractLsb', Nat.shiftRight_eq_div_pow]

theorem toNat_unpackExponent (c : BitVec 64) :
    (@unpackExponent .binary64 c).toNat = c.toNat / 2 ^ 52 % 2 ^ 11 := by
  simp [unpackExponent, BitVec.extractLsb, BitVec.extractLsb', Nat.shiftRight_eq_div_pow]

theorem toNat_unpackSign (c : BitVec 64) :
    (@unpackSign .binary64 c).toNat = c.toNat / 2 ^ 63 := by
  have := c.isLt
  simp [unpackSign, BitVec.extractLsb, BitVec.extractLsb', Nat.shiftRight_eq_div_pow]
  omega

/-- The sign of a float whose sign bit is `neg`. -/
def signOf (neg : Bool) : Sign := if neg then .negative else .positive

theorem signBit_eq (c : UInt64) : (c >>> 63 == 1) = decide (c.toNat / 2 ^ 63 = 1) := by
  rw [Bool.eq_iff_iff, beq_iff_eq, decide_eq_true_iff, ← UInt64.toNat_inj,
    UInt64.toNat_shiftRight, Nat.shiftRight_eq_div_pow]
  rfl

theorem toNat_toBitVec_signOf (c : UInt64) :
    (signOf (c >>> 63 == 1)).toBitVec.toNat = c.toNat / 2 ^ 63 := by
  have hlt := c.toNat_lt
  rw [signBit_eq]
  by_cases h1 : c.toNat / 2 ^ 63 = 1
  · rw [decide_eq_true h1, h1]
    rfl
  · rw [decide_eq_false h1]
    show 0 = _
    omega

theorem ofBitVec_unpackSign (c : UInt64) :
    Sign.ofBitVec (@unpackSign .binary64 c.toBitVec) = signOf (c >>> 63 == 1) := by
  have h : @unpackSign .binary64 c.toBitVec = (signOf (c >>> 63 == 1)).toBitVec := by
    apply BitVec.eq_of_toNat_eq
    rw [toNat_unpackSign, toNat_toBitVec_signOf, UInt64.toNat_toBitVec]
  rw [h, ofBitVec_toBitVec]

theorem unpack_normal (c : UInt64) (h1 : 0 < c.toNat / 2 ^ 52 % 2 ^ 11)
    (h2 : c.toNat / 2 ^ 52 % 2 ^ 11 < 2 ^ 11 - 1) :
    UnpackedFloat.unpack .binary64 c.toBitVec =
      .finite (signOf (c >>> 63 == 1)) (c.toNat % 2 ^ 52 + 2 ^ 52)
        ((c.toNat / 2 ^ 52 % 2 ^ 11 : Nat) - 1075) (by omega) := by
  have hexp := toNat_unpackExponent c.toBitVec
  have hmant := toNat_unpackMantissa c.toBitVec
  rw [UInt64.toNat_toBitVec] at hexp hmant
  have hne1 : @unpackExponent .binary64 c.toBitVec ≠ -1#11 := by
    intro hh
    rw [hh] at hexp
    simp only [BitVec.neg_one_eq_allOnes, BitVec.toNat_allOnes] at hexp
    omega
  have hne0 : @unpackExponent .binary64 c.toBitVec ≠ 0#11 := by
    intro hh
    rw [hh] at hexp
    simp only [BitVec.toNat_zero] at hexp
    omega
  unfold UnpackedFloat.unpack
  simp only [hne1, hne0, if_false, ofBitVec_unpackSign]
  rw [UnpackedFloat.finite.injEq, exponentBias_binary64]
  refine ⟨rfl, ?_, ?_⟩
  · rw [BitVec.toNat_append, ← Nat.shiftLeft_add_eq_or_of_lt (BitVec.isLt _), Nat.shiftLeft_eq,
      hmant]
    simp
    omega
  · rw [hexp]
    omega

theorem float_eq_of_toBits_eq {x y : Float} (h : x.toBits = y.toBits) : x = y := by
  obtain ⟨⟨bx, vx⟩⟩ := x
  obtain ⟨⟨by', vy⟩⟩ := y
  change bx = by' at h
  subst h
  rfl

theorem toNat_exponentField (bits : UInt64) :
    ((bits >>> 52) &&& 0x7FF).toNat = (bits.toNat / 2 ^ 52) % 2 ^ 11 := by
  simp only [UInt64.toNat_and, UInt64.toNat_shiftRight, Nat.shiftRight_eq_div_pow]
  exact Nat.and_two_pow_sub_one_eq_mod _ 11

theorem toNat_fractionField (bits : UInt64) :
    (bits &&& 0xFFFFFFFFFFFFF).toNat = bits.toNat % 2 ^ 52 := by
  simp only [UInt64.toNat_and]
  exact Nat.and_two_pow_sub_one_eq_mod _ 52

theorem Kind.ofBits_finite {bits : UInt64} {neg : Bool} {b : Binary}
    (h : Kind.ofBits bits = .finite neg b) (hge : 2 ^ 52 ≤ b.significand) :
    neg = (bits >>> 63 == 1) ∧ b.significand = bits.toNat % 2 ^ 52 + 2 ^ 52 ∧
      b.exponent = ((bits.toNat / 2 ^ 52) % 2 ^ 11 : Nat) - 1075 ∧
      0 < (bits.toNat / 2 ^ 52) % 2 ^ 11 ∧ (bits.toNat / 2 ^ 52) % 2 ^ 11 < 2 ^ 11 - 1 ∧
      (b.narrowBelow = true ↔ bits.toNat % 2 ^ 52 = 0 ∧ 1 < (bits.toNat / 2 ^ 52) % 2 ^ 11) := by
  unfold Kind.ofBits at h
  simp only [toNat_exponentField, toNat_fractionField, Nat.pow_eq] at h
  split_ifs at h with h1 h3 h4
  · obtain ⟨rfl, rfl⟩ := Kind.finite.inj h
    simp only at hge
    omega
  · obtain ⟨rfl, rfl⟩ := Kind.finite.inj h
    refine ⟨rfl, rfl, rfl, by omega, by omega, ?_⟩
    simp

theorem Kind.ofBits_normal {bits : UInt64} {neg : Bool} {b : Binary}
    (h : Kind.ofBits bits = .finite neg b) (hge : 2 ^ 52 ≤ b.significand) : b.Normal := by
  obtain ⟨-, hS, hE, hf1, hf2, hn⟩ := Kind.ofBits_finite h hge
  exact ⟨hge, by omega, by omega, by omega, by rw [hn]; omega⟩

theorem Kind.ofBits_subnormal {bits : UInt64} {neg : Bool} {b : Binary}
    (h : Kind.ofBits bits = .finite neg b) (hlt : b.significand < 2 ^ 52) : b.exponent = -1074 := by
  unfold Kind.ofBits at h
  simp only [toNat_exponentField, toNat_fractionField, Nat.pow_eq] at h
  split_ifs at h
  · obtain ⟨-, rfl⟩ := Kind.finite.inj h
    rfl
  · obtain ⟨-, rfl⟩ := Kind.finite.inj h
    simp only at hlt
    omega

theorem Kind.ofBits_zero {bits : UInt64} {neg : Bool} (h : Kind.ofBits bits = .zero neg) :
    bits.toNat = if neg then 2 ^ 63 else 0 := by
  have hlt := bits.toNat_lt
  unfold Kind.ofBits at h
  simp only [toNat_exponentField, toNat_fractionField, Nat.pow_eq] at h
  split_ifs at h with h1 h2 h3 h4
  cases h
  rw [signBit_eq]
  split <;> rename_i hs <;> simp only [decide_eq_true_eq] at hs <;> omega

theorem toModel_unpack (x : Float) :
    x.toModel.unpack = UnpackedFloat.unpack .binary64 x.toBits.toBitVec := rfl

theorem Kind.ofBits_unpack {x : Float} {neg : Bool} {b : Binary}
    (h : Kind.ofBits x.toBits = .finite neg b) (hge : 2 ^ 52 ≤ b.significand) :
    x.toModel.unpack = .finite (signOf neg) b.significand b.exponent (by omega) := by
  obtain ⟨hneg, hS, hE, hf1, hf2, -⟩ := Kind.ofBits_finite h hge
  rw [toModel_unpack, unpack_normal _ hf1 hf2, UnpackedFloat.finite.injEq]
  exact ⟨by rw [hneg], hS.symm, hE.symm⟩

theorem Kind.ofBits_pack {x : Float} {neg : Bool} {b : Binary}
    (h : Kind.ofBits x.toBits = .finite neg b) (hge : 2 ^ 52 ≤ b.significand) :
    Float.ofModel (Float.Model.pack (.finite (signOf neg) b.significand b.exponent (by omega))) =
      x := by
  obtain ⟨hneg, hS, hE, hf1, hf2, -⟩ := Kind.ofBits_finite h hge
  have hlt := x.toBits.toNat_lt
  apply float_eq_of_toBits_eq
  rw [← UInt64.toNat_inj]
  show (UInt64.ofBitVec (UnpackedFloat.pack .binary64 _)).toNat = _
  rw [UInt64.toNat_ofBitVec, pack_finite (by omega) (by omega) (by omega) (by omega),
    toNat_packComponents, BitVec.toNat_ofNat, BitVec.toNat_ofNat, hneg, toNat_toBitVec_signOf]
  have he : (b.exponent + 1075).toNat = (x.toBits.toNat / 2 ^ 52) % 2 ^ 11 := by omega
  rw [he, hS]
  omega

theorem ofBits_unpack (c : UInt64) (h1 : 0 < c.toNat / 2 ^ 52 % 2 ^ 11)
    (h2 : c.toNat / 2 ^ 52 % 2 ^ 11 < 2 ^ 11 - 1) :
    (Float.ofBits c).toModel.unpack =
      .finite (signOf (c >>> 63 == 1)) (c.toNat % 2 ^ 52 + 2 ^ 52)
        ((c.toNat / 2 ^ 52 % 2 ^ 11 : Nat) - 1075) (by omega) := by
  show UnpackedFloat.unpack .binary64
    (UInt64.ofBitVec (UnpackedFloat.pack .binary64 (UnpackedFloat.unpack .binary64 c.toBitVec))).toBitVec = _
  rw [UInt64.toBitVec_ofBitVec, unpack_normal c h1 h2]
  exact unpack_pack_finite (by omega) (by omega) (by omega) (by omega) _

theorem powersOfTen_unpack (n : Nat) (hn : n < Float.exactlyRepresentablePowersOfTen.size) :
    ∃ S E h, Float.exactlyRepresentablePowersOfTen[n].toModel.unpack = .finite .positive S E h ∧
      (S : ℚ) * 2 ^ E = 10 ^ n := by
  have hn' : n ≤ 22 := by
    have : Float.exactlyRepresentablePowersOfTen.size = 23 := rfl
    omega
  interval_cases n <;>
  · refine ⟨_, _, _, ofBits_unpack _ (by decide) (by decide), ?_⟩
    norm_num [UInt64.toNat_ofNat]
end Sigh.Decimal
