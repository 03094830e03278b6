import Formula.Text.CaseMap.Context
import Formula.Text.CaseMap.Lower
import Formula.Text.CaseMap.Upper

/-!
# Upper and lower case of a text

The full case mappings: a character may become several, and a capital sigma becomes a final sigma
where it ends a word, that is where a cased letter stands before it and none after it, looking past
case-ignorable characters on both sides.
-/

namespace Formula.Text

/-- The form of a character that a table of sequences and a table of shifts give it. -/
def mapCase (sequences : List (Nat × List Nat)) (shifts : List CaseShift) (c : Char) : List Char :=
  match sequences.lookup c.toNat with
  | some form => form.map Char.ofNat
  | none => [Char.ofNat (CaseShift.apply shifts c.toNat)]

def upperChar (c : Char) : List Char :=
  if c.toNat < 0x80 then [c.toUpper] else mapCase upperSequences upperShifts c

def lowerChar (c : Char) : List Char :=
  if c.toNat < 0x80 then [c.toLower] else mapCase lowerSequences lowerShifts c

/-- Whether the first of the characters that is not case-ignorable is cased. -/
def reachesCased (cs : List Char) : Bool :=
  ((cs.find? (!caseIgnorable.contains ·)).map cased.contains).getD false

/-- The lower-case form of a capital sigma between two stretches of text, the one before it in
reverse. -/
def lowerSigma (before after : List Char) : Char :=
  if reachesCased before && !reachesCased after then 'ς' else 'σ'

/-- Lower case of a text that follows the characters `before`, given in reverse. -/
def lowerFrom (before : List Char) : List Char → List Char
  | [] => []
  | c :: cs =>
    (if c = 'Σ' then [lowerSigma before cs] else lowerChar c) ++ lowerFrom (c :: before) cs

def upper (s : String) : String := String.ofList (s.toList.flatMap upperChar)

def lower (s : String) : String := String.ofList (lowerFrom [] s.toList)

end Formula.Text
