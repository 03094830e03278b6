import Formula.Number.Binary64

/-!
# Decimal numerals

A decimal is a coefficient times a power of ten. This module reads one from characters, writes one
in positional notation, and finds the double nearest to it.

## Guarding the power of ten

A numeral may carry any exponent, and `10 ^ e` is never formed for one that cannot matter: a
positive coefficient times `10 ^ 400` is above every finite double, and a coefficient below
`2 ^ (k + 1)` divided by `10 ^ e` with `k + 1100 ≤ 3 * e` is below half of the smallest one, because
`2 ^ 3 ≤ 10`.
-/

namespace Formula

/-- The number `coefficient * 10 ^ exponent`. -/
structure Decimal where
  coefficient : Nat
  exponent : Int
  deriving DecidableEq, Repr

namespace Decimal

open Binary64

/-- The magnitude of the double nearest to a decimal. -/
def magnitude (d : Decimal) : Nat :=
  if d.coefficient = 0 then 0
  else if 400 ≤ d.exponent then infinity
  else if (d.coefficient.log2 : Int) + 1100 ≤ 3 * -d.exponent then 0
  else nearest (d.coefficient * Nat.pow 10 d.exponent.toNat * one) (Nat.pow 10 (-d.exponent).toNat)

/-! ## Reading

The grammar is an optional sign, digits with at most one point and at least one digit on either
side of it, and optionally `e` or `E`, a sign and at least one digit. -/

/-- The number that a run of decimal digits writes. -/
def ofDigits (digits : List Char) : Nat :=
  digits.foldl (fun n c ↦ 10 * n + (c.toNat - '0'.toNat)) 0

/-- Splits off a sign; the flag says whether it was a minus. -/
def splitSign : List Char → Bool × List Char
  | '-' :: cs => (true, cs)
  | '+' :: cs => (false, cs)
  | cs => (false, cs)

/-- Splits off a point and the digits behind it, if a point is what comes next. -/
def splitFraction : List Char → List Char × List Char
  | '.' :: cs => (cs.takeWhile Char.isDigit, cs.dropWhile Char.isDigit)
  | cs => ([], cs)

/-- The size of the exponent that a run of decimal digits writes. Once it has reached `65536`,
further digits do not count: such an exponent leads out of the range of doubles unless the numeral
has tens of thousands of digits before it. -/
def exponentOfDigits (digits : List Char) : Nat :=
  digits.foldl (fun n c ↦ if n < 0x10000 then 10 * n + (c.toNat - '0'.toNat) else n) 0

/-- Reads the exponent that ends a numeral; nothing at all stands for `0`. -/
def readExponent? : List Char → Option Int
  | [] => some 0
  | c :: cs =>
    if c == 'e' || c == 'E' then
      let (negative, digits) := splitSign cs
      if digits.isEmpty || !digits.all Char.isDigit then none
      else if negative then some (-(exponentOfDigits digits : Int))
      else some (exponentOfDigits digits)
    else none

/-- Reads a whole numeral: its sign, and the decimal behind it. -/
def read? (cs : List Char) : Option (Bool × Decimal) :=
  let (negative, unsigned) := splitSign cs
  let whole := unsigned.takeWhile Char.isDigit
  let (fraction, rest) := splitFraction (unsigned.dropWhile Char.isDigit)
  if whole.isEmpty && fraction.isEmpty then none
  else (readExponent? rest).map fun e ↦
    (negative, ⟨ofDigits (whole ++ fraction), e - fraction.length⟩)

/-! ## Writing -/

/-- Positional notation: the digits, with zeros behind them or a point among or before them as the
exponent asks. -/
def text (d : Decimal) : List Char :=
  let digits := Nat.toDigits 10 d.coefficient
  if 0 ≤ d.exponent then digits ++ List.replicate d.exponent.toNat '0'
  else
    let places := (-d.exponent).toNat
    let padded := List.replicate (places + 1 - digits.length) '0' ++ digits
    padded.take (padded.length - places) ++ '.' :: padded.drop (padded.length - places)

end Decimal

end Formula
