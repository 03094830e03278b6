import Formula.Number.Integral
import Formula.Number.Shortest
import Formula.Text.Blank

/-!
# Numbers and their texts

How a number is written, and the four ways a text is taken for one. They share one reader,
`parse?`, and differ only in what a text without a number counts as.

The general reader of doubles (`read?`) knows words for infinity and for what is not a number. They
are kept out by their letters: a text is read only if it is made of characters that numerals have.
-/

namespace Formula.Number

/-- The text of a number: the shortest digits that read back to it, always positional, with the
sign of zero kept. -/
def text (x : Float) : String :=
  if x.isNaN then "NaN"
  else
    let m := Binary64.magnitude x
    let unsigned := if m = Binary64.infinity then "inf" else String.ofList (Decimal.shortest m).text
    if Binary64.isNegative x then "-" ++ unsigned else unsigned

/-- The double that a word in small letters stands for, behind a minus if `negative`. -/
def ofWord? (negative : Bool) (word : List Char) : Option Float :=
  if word = "inf".toList ∨ word = "infinity".toList then
    some (Binary64.ofMagnitude negative Binary64.infinity)
  else if word = "nan".toList then some Binary64.nan
  else none

/-- Reads a double: a numeral or, in letters of either size and with a sign or none, a word. -/
def read? (cs : List Char) : Option Float :=
  let (negative, unsigned) := Decimal.splitSign cs
  (ofWord? negative (unsigned.map Char.toLower)).or <|
    (Decimal.read? cs).map fun (negative, d) ↦ Binary64.ofMagnitude negative d.magnitude

/-- Whether a numeral can have a character in it. -/
def isDecimal (c : Char) : Bool :=
  c.isDigit || c == '.' || c == '+' || c == '-' || c == 'e' || c == 'E'

/-- Reads a decimal numeral with blanks around it. -/
def parse? (s : String) : Option Float :=
  let cs := Text.trim s.toList
  if cs.isEmpty || !cs.all isDecimal then none else read? cs

/-- The number of a numeric literal; a malformed one, such as `1.2.3`, is not a number. -/
def ofLiteral (s : String) : Float := (parse? s).getD Binary64.nan

/-- The number of a text in arithmetic and ordering, where any other text counts as zero. -/
def ofText (s : String) : Float := (parse? s).getD 0

/-- The number of a text in an equality test: blank text counts as zero, and any other text without
a number as one that equals none. -/
def ofComparedText (s : String) : Float :=
  if s.toList.all Text.isBlank then 0 else (parse? s).getD Binary64.nan

end Formula.Number
