namespace Sigh.Decimal

/-- A finite nonzero binary64 magnitude `significand * 2 ^ exponent`. `narrowBelow` is set when
the next smaller value is half as far away as the next larger one. -/
structure Binary where
  significand : Nat
  exponent : Int
  narrowBelow : Bool
  deriving DecidableEq, Repr

/-- Digits `digits * 10 ^ exponent`, with no trailing zero in `digits` when it is positive. -/
structure Scientific where
  digits : Nat
  exponent : Int
  deriving DecidableEq, Repr

/-- `a * 2 ^ p * 10 ^ t` split into a numerator and a denominator of natural numbers. -/
def scaled (a : Nat) (p t : Int) : Nat × Nat :=
  (a * Nat.pow 2 p.toNat * Nat.pow 10 t.toNat, Nat.pow 2 (-p).toNat * Nat.pow 10 (-t).toNat)

/-- Whether `10 ^ e ≤ significand * 2 ^ exponent`. -/
def Binary.atLeastPow10 (b : Binary) (e : Int) : Bool :=
  let (num, den) := scaled b.significand b.exponent (-e)
  den ≤ num

/-- The number of binary digits of a positive natural number, minus one. -/
def bitLength (n : Nat) : Nat := Nat.log2 n

/-- The exponent `e` with `10 ^ e ≤ value < 10 ^ (e + 1)`, found from an estimate through the
number of binary digits and settled by exact comparisons. -/
def Binary.decimalExponent (b : Binary) : Int :=
  let twos : Int := (bitLength b.significand : Int) + b.exponent
  let guess : Int := (twos * 78913).fdiv 262144
  let candidates : List Int := [guess + 2, guess + 1, guess, guess - 1]
  (candidates.find? b.atLeastPow10).getD (guess - 2)

/-- The decimal grid point `d * 10 ^ k` lies in the rounding interval of `b`. The interval is
measured in quarter units: the value is `4 * significand`, the upper end `4 * significand + 2`,
the lower end `4 * significand - 2`, or `- 1` when the binade is narrow below. -/
def Binary.readsBack (b : Binary) (k : Int) (d : Nat) : Bool :=
  let m := 4 * b.significand
  let below := if b.narrowBelow then 1 else 2
  let (lo, loDen) := scaled (m - below) (b.exponent - 2) (-k)
  let (hi, hiDen) := scaled (m + 2) (b.exponent - 2) (-k)
  let x := d * loDen
  let y := d * hiDen
  if b.significand % 2 = 0 then lo ≤ x && y ≤ hi else lo < x && y < hi

/-- The grid point with `n` significant digits that reads back, if one of the two next to the
value does: the nearer, and of two equally near the upper. -/
def Binary.onGrid (b : Binary) (n : Nat) : Option Scientific :=
  let k : Int := b.decimalExponent + 1 - n
  let (num, den) := scaled (4 * b.significand) (b.exponent - 2) (-k)
  let lower := num / den
  let upper := lower + 1
  let lowerIn := b.readsBack k lower
  let upperIn := num % den ≠ 0 && b.readsBack k upper
  if lowerIn && upperIn then
    if num - lower * den < upper * den - num then some ⟨lower, k⟩ else some ⟨upper, k⟩
  else if lowerIn then some ⟨lower, k⟩
  else if upperIn then some ⟨upper, k⟩
  else none

/-- Trailing zeros of the digits moved into the exponent. -/
def Scientific.normalize (s : Scientific) : Scientific :=
  go s.digits.log2.succ s
where
  go : Nat → Scientific → Scientific
    | 0, s => s
    | fuel + 1, s =>
      if s.digits ≠ 0 ∧ s.digits % 10 = 0 then go fuel ⟨s.digits / 10, s.exponent + 1⟩ else s

/-- The shortest decimal digits of `b`: seventeen significant digits always read back. -/
def Binary.shortest (b : Binary) : Scientific :=
  let found := (List.range 17).findSome? (fun i => b.onGrid (i + 1))
  (found.getD ⟨b.significand, b.exponent⟩).normalize

/-- The decimal digits of a positive natural number, most significant first. -/
def digitsOf (n : Nat) : List Char := (Nat.toDigits 10 n)

/-- The exponent of the leading digit: `digits * 10 ^ exponent = d.ddd * 10 ^ leading`. -/
def Scientific.leading (s : Scientific) : Int := s.exponent + (digitsOf s.digits).length - 1

end Sigh.Decimal
