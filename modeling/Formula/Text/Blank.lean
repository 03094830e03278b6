/-!
# Blank text

Source texts, numerals and binding names are all trimmed by one rule: a character is blank when
Unicode gives it the property `White_Space`. The set is larger than the one that separates tokens,
so a no-break space around a source is dropped while the same character inside it is not layout.

Trimming is kept as two one-sided functions because a source's offsets count the bytes that were
dropped in front of it and never those behind it.
-/

namespace Formula.Text

/-- Whether Unicode counts `c` as white space. -/
def isBlank (c : Char) : Bool :=
  let n := c.toNat
  (9 ≤ n && n ≤ 13) || n == 0x20 || n == 0x85 || n == 0xA0 || n == 0x1680
    || (0x2000 ≤ n && n ≤ 0x200A) || n == 0x2028 || n == 0x2029 || n == 0x202F || n == 0x205F
    || n == 0x3000

/-- The characters of `cs` from the first that is not blank. -/
def trimFront (cs : List Char) : List Char := cs.dropWhile isBlank

/-- The characters of `cs` up to the last that is not blank. -/
def trimBack (cs : List Char) : List Char := (cs.reverse.dropWhile isBlank).reverse

def trim (cs : List Char) : List Char := trimBack (trimFront cs)

/-- What is dropped in front, and what is left, make up the whole text. -/
theorem takeWhile_append_trimFront (cs : List Char) :
    cs.takeWhile isBlank ++ trimFront cs = cs := List.takeWhile_append_dropWhile

end Formula.Text
