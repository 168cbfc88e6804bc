import Sigh.Proofs.Float.Shortest

open Float.Model Float.Model.UnpackedFloat

namespace Sigh.Decimal

theorem digitsValue_eq (ds : List Char) : digitsValue ds = Nat.ofDigitChars 10 ds 0 := rfl

theorem readUnsignedDecimal_point {ws fs : List Char} (hw : ws ≠ [])
    (hd : ∀ c ∈ ws ++ fs, c.isDigit = true) :
    readUnsignedDecimal (ws ++ '.' :: fs) = some (digitsValue (ws ++ fs), -(fs.length : ℤ)) := by
  have hws : ∀ c ∈ ws, c.isDigit = true := fun c hc => hd c (List.mem_append_left _ hc)
  have hfs : ∀ c ∈ fs, c.isDigit = true := fun c hc => hd c (List.mem_append_right _ hc)
  have hdot : Char.isDigit '.' = false := by decide
  have htake : (ws ++ '.' :: fs).takeWhile Char.isDigit = ws := by
    rw [List.takeWhile_append_of_pos hws, List.takeWhile_cons_of_neg (by simp [hdot]),
      List.append_nil]
  have hdrop : (ws ++ '.' :: fs).dropWhile Char.isDigit = '.' :: fs := by
    rw [List.dropWhile_append_of_pos hws, List.dropWhile_cons_of_neg (by simp [hdot])]
  have hftake : fs.takeWhile Char.isDigit = fs := List.takeWhile_eq_self_iff.mpr hfs
  have hfdrop : fs.dropWhile Char.isDigit = [] := List.dropWhile_eq_nil_iff.mpr hfs
  unfold readUnsignedDecimal
  have hwe : ws.isEmpty = false := List.isEmpty_eq_false_iff.mpr hw
  simp only [htake, hdrop, hftake, hfdrop, hwe, Bool.false_and, Bool.false_eq_true, if_false,
    Option.map_some, zero_sub]

theorem digitsOf_digits (d : Nat) : ∀ c ∈ digitsOf d, c.isDigit = true :=
  fun _ hc => Nat.isDigit_of_mem_toDigits (by norm_num) (by norm_num) hc

theorem digitsValue_append_zeros (ds : List Char) (z : Nat) :
    digitsValue (ds ++ List.replicate z '0') = digitsValue ds * 10 ^ z := by
  rw [digitsValue_eq, digitsValue_eq, Nat.ofDigitChars_append, Nat.ofDigitChars_replicate_zero,
    Nat.mul_comm]

theorem digitsValue_zeros_append (z : Nat) (ds : List Char) :
    digitsValue (List.replicate z '0' ++ ds) = digitsValue ds := by
  rw [digitsValue_eq, digitsValue_eq, Nat.ofDigitChars_append, Nat.ofDigitChars_replicate_zero,
    Nat.mul_zero]

theorem digitsValue_digitsOf (d : Nat) : digitsValue (digitsOf d) = d :=
  Nat.ofDigitChars_ten_toDigits

theorem positional_point (d : Nat) (leading : Int) :
    ∃ ws fs, (positional (digitsOf d) leading).toList = ws ++ '.' :: fs ∧ ws ≠ [] ∧ fs ≠ [] ∧
      (∀ c ∈ ws ++ fs, c.isDigit = true) ∧
      (digitsValue (ws ++ fs) : ℚ) * 10 ^ (-(fs.length : ℤ)) =
        d * 10 ^ (leading + 1 - (digitsOf d).length) := by
  have hds := digitsOf_digits d
  have hne : digitsOf d ≠ [] := Nat.toDigits_ne_nil
  have hlen : 0 < (digitsOf d).length := List.length_pos_iff.mpr hne
  have hzero : Char.isDigit '0' = true := by decide
  unfold positional
  split
  · rename_i hlead
    refine ⟨['0'], List.replicate ((-leading).toNat - 1) '0' ++ digitsOf d, ?_, by simp, by simp [hne],
      ?_, ?_⟩
    · simp [String.toList_append]
    · intro c hc
      simp only [List.mem_append, List.mem_singleton, List.mem_replicate] at hc
      rcases hc with rfl | ⟨-, rfl⟩ | hc
      · exact hzero
      · exact hzero
      · exact hds c hc
    · rw [show ['0'] ++ (List.replicate ((-leading).toNat - 1) '0' ++ digitsOf d) =
          List.replicate ((-leading).toNat - 1 + 1) '0' ++ digitsOf d by
            rw [List.replicate_succ]; rfl,
        digitsValue_zeros_append, digitsValue_digitsOf, List.length_append, List.length_replicate]
      congr 2
      omega
  · rename_i hlead
    dsimp only
    split
    · rename_i hshort
      refine ⟨digitsOf d ++ List.replicate (leading.toNat + 1 - (digitsOf d).length) '0', ['0'],
        ?_, by simp [hne], by simp, ?_, ?_⟩
      · simp [String.toList_append]
      · intro c hc
        simp only [List.mem_append, List.mem_singleton, List.mem_replicate] at hc
        rcases hc with (hc | ⟨-, rfl⟩) | rfl
        · exact hds c hc
        · exact hzero
        · exact hzero
      · rw [List.append_assoc, ← List.replicate_succ', digitsValue_append_zeros,
          digitsValue_digitsOf, Nat.cast_mul, Nat.cast_pow, Nat.cast_ofNat, mul_assoc,
          ← zpow_natCast, ← zpow_add₀ (by norm_num)]
        congr 2
        simp only [List.length_singleton]
        omega
    · rename_i hlong
      refine ⟨(digitsOf d).take (leading.toNat + 1), (digitsOf d).drop (leading.toNat + 1), ?_,
        ?_, ?_, ?_, ?_⟩
      · simp [String.toList_append]
      · simp [hne]
      · simp
        omega
      · rw [List.take_append_drop]
        exact hds
      · rw [List.take_append_drop, digitsValue_digitsOf, List.length_drop]
        congr 2
        omega

theorem toLower_of_isDigit {c : Char} (h : c.isDigit = true) : c.toLower = c := by
  unfold Char.toLower
  rw [dif_neg]
  intro h'
  simp only [Char.isDigit, Bool.and_eq_true, decide_eq_true_eq] at h
  have h1 := h.2
  have h2 := h'.1
  simp only [ge_iff_le, UInt32.le_iff_toNat_le] at h1 h2
  simp at h1 h2
  omega

theorem readFloat?_of_digit {text : String} {cs : List Char} (ht : text.toList = cs)
    (hne : cs ≠ []) (hc : ∀ c ∈ cs.head?, c.isDigit = true) :
    readFloat? text = (readUnsignedDecimal cs).map fun (m, e) => ofDecimal false m e := by
  obtain ⟨c, rest, rfl⟩ := List.exists_cons_of_ne_nil hne
  replace hc : c.isDigit = true := hc c rfl
  have hsign : splitSign (c :: rest) = (false, c :: rest) := by
    unfold splitSign
    split
    · rename_i h; cases h; simp [Char.isDigit] at hc
    · rename_i h; cases h; simp [Char.isDigit] at hc
    · rfl
  have hword : ∀ w : String, (w.toList.head?.all fun d => !d.isDigit) = true →
      String.ofList ((c :: rest).map Char.toLower) ≠ w := by
    intro w hw heq
    rw [← heq, String.toList_ofList, List.map_cons, toLower_of_isDigit hc] at hw
    simp [hc] at hw
  have hinf := hword "inf" (by decide)
  have hinfinity := hword "infinity" (by decide)
  have hnan := hword "nan" (by decide)
  unfold readFloat?
  rw [ht, hsign]
  simp only [hinf, hinfinity, hnan, decide_false, Bool.or_false, Bool.false_eq_true, if_false]

theorem literalStyle_magnitude {b : Binary} (hlo : (10 : ℚ) ^ (-4 : ℤ) ≤ b.value)
    (hhi : b.value < 10 ^ (16 : ℤ)) :
    literalStyle.magnitude b = positional (digitsOf b.shortest.digits) b.shortest.leading := by
  have h1 : b.atLeastPow10 literalStyle.positionalFrom = true :=
    (Binary.atLeastPow10_iff _ _).mpr hlo
  have h2 : b.atLeastPow10 literalStyle.positionalBelow = false := by
    rw [← Bool.not_eq_true, Binary.atLeastPow10_iff]
    exact not_le.mpr hhi
  simp only [FloatStyle.magnitude, h1, h2, Bool.not_false, Bool.and_self, if_true]

theorem readFloat?_magnitude {b : Binary} (hb : b.Normal) (hlo : (10 : ℚ) ^ (-4 : ℤ) ≤ b.value)
    (hhi : b.value < 10 ^ (16 : ℤ)) :
    readFloat? (literalStyle.magnitude b) =
      some (Float.ofModel (Float.Model.pack (.finite .positive b.significand b.exponent
        hb.significand_pos))) := by
  obtain ⟨ws, fs, htext, hw, -, hd, hval⟩ :=
    positional_point b.shortest.digits b.shortest.leading
  have hhead : ∀ c ∈ (ws ++ '.' :: fs).head?, c.isDigit = true := by
    intro c hc
    obtain ⟨c', ws', rfl⟩ := List.exists_cons_of_ne_nil hw
    simp only [List.cons_append, List.head?_cons, Option.mem_def, Option.some.injEq] at hc
    exact hd c (by simp [hc])
  rw [literalStyle_magnitude hlo hhi, readFloat?_of_digit htext (by simp) hhead,
    readUnsignedDecimal_point hw hd, Option.map_some]
  congr 1
  apply ofDecimal_eq hb
  rw [hval, show b.shortest.leading + 1 - ((digitsOf b.shortest.digits).length : ℤ) =
    b.shortest.exponent by unfold Scientific.leading; ring]
  exact Binary.shortest_rounds hb

theorem Kind.ofBits_normal_of_le {bits : UInt64} {neg : Bool} {b : Binary}
    (h : Kind.ofBits bits = .finite neg b) (hv : (10 : ℚ) ^ (-4 : ℤ) ≤ b.value) :
    2 ^ 52 ≤ b.significand := by
  by_contra hlt
  have hE := Kind.ofBits_subnormal h (by omega)
  have hS : (b.significand : ℚ) ≤ 2 ^ 52 := by exact_mod_cast (show b.significand ≤ 2 ^ 52 by omega)
  have hsmall : b.value ≤ 2 ^ 52 * 2 ^ (-1074 : ℤ) := by
    rw [Binary.value, hE]
    exact mul_le_mul_of_nonneg_right hS (zpow_pos (by norm_num) _).le
  have : (2 : ℚ) ^ 52 * 2 ^ (-1074 : ℤ) < 10 ^ (-4 : ℤ) := by
    rw [← zpow_natCast, ← zpow_add₀ two_ne_zero, show ((52 : ℕ) : ℤ) + -1074 = -1022 by norm_num,
      zpow_neg, zpow_neg, zpow_ofNat, zpow_ofNat]
    apply inv_strictAnti₀ (by positivity)
    exact_mod_cast (show 10 ^ 4 < 2 ^ 1022 by decide +kernel)
  linarith

theorem neg_ofModel_pack {s : Sign} {S : Nat} {E : Int} (hS1 : 2 ^ 52 ≤ S) (hS2 : S < 2 ^ 53)
    (hE1 : -1074 ≤ E) (hE2 : E ≤ 971) (h : 0 < S) :
    -Float.ofModel (Float.Model.pack (.finite s S E h)) =
      Float.ofModel (Float.Model.pack (.finite (-s) S E h)) := by
  show Float.ofModel (Float.Model.pack (Float.Model.unpack (Float.Model.pack (.finite s S E h))).neg) = _
  have : Float.Model.unpack (Float.Model.pack (.finite s S E h)) = .finite s S E h := by
    show UnpackedFloat.unpack .binary64 (UInt64.ofBitVec (UnpackedFloat.pack .binary64 _)).toBitVec = _
    rw [UInt64.toBitVec_ofBitVec]
    exact unpack_pack_finite hS1 hS2 hE1 hE2 h
  rw [this]
  rfl

/-- Digits, a point and digits: the text of a float literal token. -/
def PointedDigits (t : String) : Prop :=
  ∃ ws fs, t.toList = ws ++ '.' :: fs ∧ ws ≠ [] ∧ fs ≠ [] ∧ ∀ c ∈ ws ++ fs, c.isDigit = true

/-- The floats that the literal style writes positionally: the zeros, and the finite values of
magnitude from `10 ^ -4` up to below `10 ^ 16`. -/
def PrintsPositionally (x : Float) : Prop :=
  match Kind.ofBits x.toBits with
  | .zero _ => True
  | .finite _ b => (10 : ℚ) ^ (-4 : ℤ) ≤ b.value ∧ b.value < 10 ^ (16 : ℤ)
  | _ => False

theorem zero_text_reads : ((readFloat? "0.0").getD 0.0).toBits = 0 := by decide +kernel

theorem neg_zero_text_reads : (-((readFloat? "0.0").getD 0.0)).toBits = 0x8000000000000000 := by
  decide +kernel

theorem render_reads_back {x : Float} (hx : PrintsPositionally x) :
    ∃ (neg : Bool) (t : String), literalStyle.render x = (if neg then "-" ++ t else t) ∧
      PointedDigits t ∧
      (if neg then -((readFloat? t).getD 0.0) else (readFloat? t).getD 0.0) = x := by
  unfold PrintsPositionally at hx
  unfold FloatStyle.render FloatStyle.ofBits
  split at hx
  · rename_i neg hk
    have hdigits : ∀ c ∈ ['0'] ++ ['0'], c.isDigit = true := fun c hc => by
      rcases List.mem_append.mp hc with h | h <;> obtain rfl := List.mem_singleton.mp h <;> rfl
    refine ⟨neg, "0.0", by rw [hk], ⟨['0'], ['0'], rfl, by simp, by simp, hdigits⟩, ?_⟩
    have hbits := Kind.ofBits_zero hk
    apply float_eq_of_toBits_eq
    rw [← UInt64.toNat_inj, hbits]
    cases neg
    · simp only [Bool.false_eq_true, if_false, zero_text_reads]
      rfl
    · simp only [if_true, neg_zero_text_reads]
      rfl
  · rename_i neg b hk
    obtain ⟨hlo, hhi⟩ := hx
    have hge := Kind.ofBits_normal_of_le hk hlo
    have hb := Kind.ofBits_normal hk hge
    obtain ⟨ws, fs, htext, hw, hf, hd, -⟩ :=
      positional_point b.shortest.digits b.shortest.leading
    refine ⟨neg, literalStyle.magnitude b, by rw [hk], ⟨ws, fs, ?_, hw, hf, hd⟩, ?_⟩
    · rw [literalStyle_magnitude hlo hhi, htext]
    rw [readFloat?_magnitude hb hlo hhi, Option.getD_some, ← Kind.ofBits_pack hk hge]
    cases neg
    · rfl
    · exact neg_ofModel_pack hb.significand_ge hb.significand_lt hb.exponent_ge hb.exponent_le _
  · exact absurd hx id

end Sigh.Decimal
