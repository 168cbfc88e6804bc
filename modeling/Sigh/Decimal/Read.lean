namespace Sigh.Decimal

/-- The value of a run of decimal digits. -/
def digitsValue (ds : List Char) : Nat := ds.foldl (fun n c => 10 * n + (c.toNat - 48)) 0

/-- The number of decimal digits of `n`, at least one. -/
def digitCount (n : Nat) : Nat := (Nat.toDigits 10 n).length

/-- `mantissa * 10 ^ exponent` rounded to the nearest binary64 value, ties to even. Values at or
above `10 ^ 310` are infinite and values below `10 ^ -330` are zero, which spares powers of ten
that cannot change the result. -/
def ofDecimal (negative : Bool) (mantissa : Nat) (exponent : Int) : Float :=
  let magnitude : Float :=
    if mantissa = 0 then 0.0
    else if exponent + digitCount mantissa > 310 then Float.ofScientific 1 false 400
    else if exponent + digitCount mantissa < -330 then 0.0
    else Float.ofScientific mantissa (exponent < 0) exponent.natAbs
  if negative then -magnitude else magnitude

/-- Splits off the leading sign of a number. -/
def splitSign : List Char → Bool × List Char
  | '-' :: rest => (true, rest)
  | '+' :: rest => (false, rest)
  | cs => (false, cs)

/-- Reads an exponent part after its mark: an optional sign and at least one digit. -/
def readExponent (cs : List Char) : Option Int :=
  let (negative, rest) := splitSign cs
  if rest.isEmpty || !rest.all Char.isDigit then none
  else
    let e := (digitsValue rest : Int)
    some (if negative then -e else e)

/-- Reads unsigned decimal digits with an optional point and exponent as mantissa and exponent. -/
def readUnsignedDecimal (cs : List Char) : Option (Nat × Int) :=
  let whole := cs.takeWhile Char.isDigit
  let afterWhole := cs.dropWhile Char.isDigit
  let (fraction, afterFraction) :=
    match afterWhole with
    | '.' :: rest => (rest.takeWhile Char.isDigit, rest.dropWhile Char.isDigit)
    | rest => ([], rest)
  if whole.isEmpty && fraction.isEmpty then none
  else
    let exponent? : Option Int :=
      match afterFraction with
      | [] => some 0
      | c :: rest => if c = 'e' || c = 'E' then readExponent rest else none
    exponent?.map fun e => (digitsValue (whole ++ fraction), e - fraction.length)

/-- Reads a decimal number or one of the words for infinity and NaN. -/
def readFloat? (text : String) : Option Float :=
  let (negative, rest) := splitSign text.toList
  let word := String.ofList (rest.map Char.toLower)
  if word = "inf" || word = "infinity" then
    some (if negative then -(Float.ofScientific 1 false 400) else Float.ofScientific 1 false 400)
  else if word = "nan" then
    some (0.0 / 0.0)
  else
    (readUnsignedDecimal rest).map fun (m, e) => ofDecimal negative m e

example : (readFloat? "0.1").map Float.toBits = some (0.1 : Float).toBits := by decide +kernel
example : (readFloat? "-0.0").map Float.toBits = some 0x8000000000000000 := by decide +kernel
example : (readFloat? "1e400").map Float.toBits = some 0x7FF0000000000000 := by decide +kernel
example : (readFloat? "1.e5").isSome = true := by decide +kernel
example : (readFloat? ".").isSome = false := by decide +kernel

end Sigh.Decimal
