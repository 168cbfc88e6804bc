import Sigh.Decimal.Shortest

namespace Sigh.Decimal

/-- What a binary64 bit pattern denotes. -/
inductive Kind where
  | nan
  | infinite (negative : Bool)
  | zero (negative : Bool)
  | finite (negative : Bool) (magnitude : Binary)
  deriving Repr

/-- Splits a bit pattern into sign, exponent field and fraction field. -/
def Kind.ofBits (bits : UInt64) : Kind :=
  let negative := bits >>> 63 == 1
  let field := ((bits >>> 52) &&& 0x7FF).toNat
  let fraction := (bits &&& 0xFFFFFFFFFFFFF).toNat
  if field = 0x7FF then
    if fraction = 0 then .infinite negative else .nan
  else if field = 0 then
    if fraction = 0 then .zero negative else .finite negative ⟨fraction, -1074, false⟩
  else
    .finite negative ⟨fraction + Nat.pow 2 52, (field : Int) - 1075, fraction = 0 && field > 1⟩

/-- How a binary64 value is written. Values with `10 ^ positionalFrom ≤ |v| < 10 ^ positionalBelow`,
and zeros, are written positionally with at least one digit after the point; the others as a
mantissa, `exponentMark` and the decimal exponent. -/
structure FloatStyle where
  nan : String
  infinity : String
  negativeInfinity : String
  positionalFrom : Int
  positionalBelow : Int
  exponentMark : String
  pointInMantissa : Bool

/-- Digits `ds` with the point after the digit of weight `10 ^ leading`, at least one digit on
each side of the point. -/
def positional (ds : List Char) (leading : Int) : String :=
  if leading < 0 then
    "0." ++ String.ofList (List.replicate ((-leading).toNat - 1) '0' ++ ds)
  else
    let whole := leading.toNat + 1
    if ds.length ≤ whole then
      String.ofList (ds ++ List.replicate (whole - ds.length) '0') ++ ".0"
    else
      String.ofList (ds.take whole) ++ "." ++ String.ofList (ds.drop whole)

/-- Digits `ds` as `d.ddd` followed by the exponent mark and `leading`. -/
def FloatStyle.exponential (style : FloatStyle) (ds : List Char) (leading : Int) : String :=
  let mantissa :=
    match ds with
    | [] => "0"
    | [d] => if style.pointInMantissa then String.ofList [d, '.', '0'] else String.ofList [d]
    | d :: rest => String.ofList (d :: '.' :: rest)
  mantissa ++ style.exponentMark ++ toString leading

/-- The text of a finite nonzero magnitude. -/
def FloatStyle.magnitude (style : FloatStyle) (b : Binary) : String :=
  let s := b.shortest
  let ds := digitsOf s.digits
  if b.atLeastPow10 style.positionalFrom && !b.atLeastPow10 style.positionalBelow then
    positional ds s.leading
  else
    style.exponential ds s.leading

/-- The text of the value with bit pattern `bits`. -/
def FloatStyle.ofBits (style : FloatStyle) (bits : UInt64) : String :=
  let sign (negative : Bool) (t : String) := if negative then "-" ++ t else t
  match Kind.ofBits bits with
  | .nan => style.nan
  | .infinite negative => if negative then style.negativeInfinity else style.infinity
  | .zero negative => sign negative "0.0"
  | .finite negative b => sign negative (style.magnitude b)

/-- The text of a float value. -/
def FloatStyle.render (style : FloatStyle) (x : Float) : String := style.ofBits x.toBits

/-- Float values as a program shows them: positional from `10 ^ -3` up to below `10 ^ 7`, else
`1.0E20` and `1.5E-5`; `NaN`, `Infinity`, `-Infinity`. -/
def valueStyle : FloatStyle where
  nan := "NaN"
  infinity := "Infinity"
  negativeInfinity := "-Infinity"
  positionalFrom := -3
  positionalBelow := 7
  exponentMark := "E"
  pointInMantissa := true

/-- Float literals in printed syntax: positional from `10 ^ -4` up to below `10 ^ 16`, else
`1e16` and `1.5e-5`; `NaN`, `inf`, `-inf`. -/
def literalStyle : FloatStyle where
  nan := "NaN"
  infinity := "inf"
  negativeInfinity := "-inf"
  positionalFrom := -4
  positionalBelow := 16
  exponentMark := "e"
  pointInMantissa := false

example : valueStyle.render 0.1 = "0.1" := by decide +kernel
example : valueStyle.render 1e20 = "1.0E20" := by decide +kernel
example : literalStyle.render 1e16 = "1e16" := by decide +kernel
example : valueStyle.render (0.1 + 0.2) = "0.30000000000000004" := by decide +kernel

end Sigh.Decimal
