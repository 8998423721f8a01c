import CircuitIR.Decimal.Digits

/-!
# Text of numbers

The ways in which the library writes a number: the shortest text that reads back, scientific
notation with a fixed number of digits, a fixed number of places, and the text of a binary number of
any precision inside an expression.
-/

namespace CircuitIR

namespace Decimal

/-- The digits of a natural number, padded with zeros on the left to a width. -/
def paddedDigits (width n : Nat) : List Char :=
  let ds := Nat.toDigits 10 n
  List.replicate (width - ds.length) '0' ++ ds

def stripTrailingZeros (ds : List Char) : List Char :=
  (ds.reverse.dropWhile (· == '0')).reverse

/-- An exponent with its sign and at least two digits. -/
def exponentText (e : Int) : List Char :=
  'e' :: (if e < 0 then '-' else '+') :: paddedDigits 2 e.natAbs

/-- Digits with the point before position `point`, padded with zeros on either side. -/
def positional (ds : List Char) (point : Int) : List Char :=
  if point ≤ 0 then '0' :: '.' :: (List.replicate (-point).toNat '0' ++ ds)
  else
    let p := point.toNat
    let whole := ds.take p ++ List.replicate (p - ds.length) '0'
    let rest := ds.drop p
    whole ++ '.' :: (if rest.isEmpty then ['0'] else rest)

/-- The shortest text of a positive double: positional from `10 ^ -4` to below `10 ^ 16`, else with
an exponent. -/
def shortestText (x : Binary) : List Char :=
  let d := shortest x
  let ds := Nat.toDigits 10 d.digits
  let lead := d.exponent + ds.length - 1
  let ds := stripTrailingZeros ds
  if -4 ≤ lead && lead < 16 then positional ds (lead + 1)
  else
    ds.take 1 ++ (if ds.length ≤ 1 then [] else '.' :: ds.drop 1) ++ exponentText lead

/-- A positive number with one digit before the point and `n` after it, and an exponent. -/
def scientificText (n : Nat) (x : Binary) : List Char :=
  let d := significant (n + 1) x
  let ds := paddedDigits (n + 1) d.digits
  ds.take 1 ++ '.' :: ds.drop 1 ++ exponentText (d.exponent + n)

/-- A nonnegative number with `n` places after the point. -/
def fixedText (n : Nat) (x : Binary) : List Char :=
  let ds := paddedDigits (n + 1) (places n x)
  ds.take (ds.length - n) ++ '.' :: ds.drop (ds.length - n)

end Decimal

/-- The shortest text that reads back as the same double. -/
def FloatText.shortest (x : Float) : String :=
  match Binary.ofFloat? x with
  | none => if x.isNaN then "nan" else if x < 0 then "-inf" else "inf"
  | some b =>
    if b.isZero then (if x.toBits = 0 then "0.0" else "-0.0")
    else String.ofList ((if b.isNegative then ['-'] else []) ++ Decimal.shortestText b.abs)

/-- Twelve significant digits in scientific notation; a zero has no sign. -/
def FloatText.scientific (x : Float) : String :=
  match Binary.ofFloat? x with
  | none => if x.isNaN then "nan" else if x < 0 then "-inf" else "inf"
  | some b =>
    if b.isZero then "0.00000000000e+00"
    else String.ofList ((if b.isNegative then ['-'] else []) ++ Decimal.scientificText 11 b.abs)

/-- Ten places after the point; a number that rounds to zero has no sign. -/
def FloatText.fixed (x : Float) : String :=
  match Binary.ofFloat? x with
  | none => if x.isNaN then "nan" else if x < 0 then "-inf" else "inf"
  | some b =>
    let sign := b.isNegative && Decimal.places 10 b.abs != 0
    String.ofList ((if sign then ['-'] else []) ++ Decimal.fixedText 10 b.abs)

namespace Binary

/-- The number of decimal digits that a precision in bits is worth. -/
def decimalDigits (precision : Nat) : Nat :=
  -- nearest integer to `precision / log₂ 10`, less one
  let q := Decimal.roundQuotient (precision * 10000000000000000) 33219280948873626
  max 1 (q - 1)

/-- The precision in bits that a number of decimal digits asks for. -/
def precisionOfDigits (digits : Nat) : Nat :=
  max 1 (Decimal.roundQuotient ((digits + 1) * 33219280948873626) 10000000000000000)

/-- Digits of a positive number, cut off after three more digits than wanted and then rounded half
up, with the exponent of the first. -/
def roundedDigits (digits : Nat) (x : Binary) : List Char × Int :=
  let e := Decimal.leadingExponent x
  let g := Decimal.timesPowerOfTen (Decimal.fractionOf x) (digits + 2 - e)
  let cut := Nat.toDigits 10 (g.1 / g.2)
  if (cut.getD digits '0') < '5' then (cut.take digits, e)
  else
    let raised := Nat.toDigits 10 ((cut.take digits).foldl (fun n c => 10 * n + (c.toNat - 48)) 0 + 1)
    if digits < raised.length then (raised.take digits, e + 1) else (raised, e)

/-- A number of a given precision inside an expression: as many digits as the precision is worth
without trailing zeros, positional unless the exponent is small or exceeds the digits. -/
def text (precision : Nat) (x : Binary) : String :=
  if x.isZero then "0.0"
  else
    let digits := decimalDigits precision
    let (ds, e) := roundedDigits digits x.abs
    let sign := if x.isNegative then ['-'] else []
    let least : Int := min (-((digits / 3 : Nat) : Int)) (-5)
    let strip (cs : List Char) : List Char :=
      let cs := Decimal.stripTrailingZeros cs
      if cs.getLast? = some '.' then cs ++ ['0'] else cs
    if least < e && e < digits then
      String.ofList (sign ++ strip (Decimal.positional ds (e + 1)))
    else
      String.ofList (sign ++ strip (ds.take 1 ++ '.' :: ds.drop 1)
        ++ 'e' :: (if 0 ≤ e then '+' :: Nat.toDigits 10 e.natAbs else '-' :: Nat.toDigits 10 e.natAbs))

end Binary

end CircuitIR
