import Formula.Number

/-!
# Values

Every formula evaluates to a number, a text or a truth value; there is no null. The language is
loosely typed, so each kind can stand in for the others: as a condition (`isTruthy`), in arithmetic
and ordering (`toNumber`), and in an equality test (`looselyEquals`).

The last two read texts by different rules. In arithmetic a text without a number is `0`, so that a
sum never fails on it. In an equality test it must not equal the number `0`, so there it counts as a
number that equals none.
-/

namespace Formula

/-- What a formula evaluates to. -/
inductive Value where
  | number (x : Float)
  | text (s : String)
  | boolean (b : Bool)
  deriving DecidableEq

namespace Value

/-! ## Kinds -/

/-- The number of a number, without conversion. -/
def number? : Value → Option Float
  | number x => some x
  | _ => none

/-- The text of a text, without conversion. -/
def text? : Value → Option String
  | text s => some s
  | _ => none

/-- The truth value of a truth value, without conversion. -/
def boolean? : Value → Option Bool
  | boolean b => some b
  | _ => none

/-! ## Conversions -/

/-- Whether a value holds as a condition: numbers other than zero and texts other than the empty
one do. What is not a number differs from zero, so it holds. -/
def isTruthy : Value → Bool
  | number x => x != 0
  | text s => !s.isEmpty
  | boolean b => b

/-- The number of a truth value. -/
def ofBool (b : Bool) : Float := if b then 1 else 0

/-- The number that a value stands for in arithmetic and ordering. -/
def toNumber : Value → Float
  | number x => x
  | text s => Number.ofText s
  | boolean b => ofBool b

/-- The number that a value stands for when it is tested against one of another kind. -/
def toComparedNumber : Value → Float
  | text s => Number.ofComparedText s
  | v => v.toNumber

/-! ## Equality -/

/-- Values of one kind are compared as they are, others by their numbers. -/
def looselyEquals : Value → Value → Bool
  | number x, number y => x == y
  | text s, text t => s == t
  | boolean b, boolean c => b == c
  | v, w => v.toComparedNumber == w.toComparedNumber

/-- Values are equal if they are of one kind and equal in it; what is not a number does not equal
itself. -/
def equals : Value → Value → Bool
  | number x, number y => x == y
  | text s, text t => s == t
  | boolean b, boolean c => b == c
  | _, _ => false

/-! ## Texts -/

/-- The word of a truth value. -/
def boolText (b : Bool) : String := if b then "true" else "false"

/-- The text of a value, in which a text is itself. -/
def display : Value → String
  | number x => Number.text x
  | text s => s
  | boolean b => boolText b

/-- Reads a value as it is written in a binding: the two truth words, a numeral, or any other text
as it stands. -/
def ofText (s : String) : Value :=
  if s = "true" then boolean true
  else if s = "false" then boolean false
  else match Number.parse? s with
    | some x => number x
    | none => text s

end Value

end Formula
