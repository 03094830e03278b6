import Formula.Text.Combining
import Formula.Text.Invisible

/-!
# Quoted text

A text is shown between double quotes with everything in it made visible: the quote and the
backslash behind a backslash, four controls by a letter or digit, and any other character that has
no visible form, or that would be drawn onto its neighbour, by its code point in hexadecimal between
braces.
-/

namespace Formula.Text

/-- The characters that are shown by their code points. -/
def isHidden (c : Char) : Bool :=
  if c.toNat < 0x7F then c.toNat < 0x20 else invisible.contains c || combining.contains c

/-- The code point of a character in lower-case hexadecimal. -/
def codePoint (c : Char) : List Char := Nat.toDigits 16 c.toNat

/-- How one character is shown inside the quotes. -/
def escape (c : Char) : List Char :=
  match c with
  | '"' => ['\\', '"']
  | '\\' => ['\\', '\\']
  | '\n' => ['\\', 'n']
  | '\r' => ['\\', 'r']
  | '\t' => ['\\', 't']
  | '\x00' => ['\\', '0']
  | c => if isHidden c then ['\\', 'u', '\x7b'] ++ codePoint c ++ ['\x7d'] else [c]

/-- A text between double quotes. -/
def quoted (s : String) : String := String.ofList ('"' :: (s.toList.flatMap escape ++ ['"']))

end Formula.Text
