import Formula.Number.Integral
import Formula.Text.CaseMap
import Formula.Value

/-!
# The standard functions

Eleven functions on numbers, texts and conditions. None of them counts its arguments: missing ones
read as no number, as the empty text or as a condition that fails, and surplus ones are ignored.
-/

namespace Formula

inductive StandardFunction where
  | min | max | abs | floor | ceil | round | sqrt | choose | len | upper | lower
  deriving DecidableEq, Repr

namespace StandardFunction

/-- The name that a formula calls a function by. -/
def name : StandardFunction → String
  | min => "min"
  | max => "max"
  | abs => "abs"
  | floor => "floor"
  | ceil => "ceil"
  | round => "round"
  | sqrt => "sqrt"
  | choose => "if"
  | len => "len"
  | upper => "upper"
  | lower => "lower"

/-- Every standard function once, in the order in which they are listed. -/
def all : List StandardFunction :=
  [min, max, abs, floor, ceil, round, sqrt, choose, len, upper, lower]

theorem mem_all (f : StandardFunction) : f ∈ all := by cases f <;> decide

def ofName? (name : String) : Option StandardFunction := all.find? (·.name == name)

/-! ## Arguments -/

/-- The number of the first argument. -/
def firstNumber (arguments : List Value) : Float :=
  (arguments.head?.map Value.toNumber).getD Binary64.nan

/-- The text of the first argument. -/
def firstText (arguments : List Value) : String :=
  (arguments.head?.map Value.display).getD ""

/-- The numbers of all arguments, taken together two at a time from the left. -/
def foldNumbers (pick : Float → Float → Float) (arguments : List Value) : Float :=
  match arguments.map Value.toNumber with
  | [] => Binary64.nan
  | x :: xs => xs.foldl pick x

/-- The second or the third argument, as the first one holds or not. -/
def branch (arguments : List Value) : Value :=
  let holds := (arguments.head?.map Value.isTruthy).getD false
  (arguments[if holds then 1 else 2]?).getD (.boolean false)

/-- The value of a standard function. -/
def apply : StandardFunction → List Value → Value
  | min, vs => .number (foldNumbers Binary64.lesser vs)
  | max, vs => .number (foldNumbers Binary64.greater vs)
  | abs, vs => .number (firstNumber vs).abs
  | floor, vs => .number (Binary64.floor (firstNumber vs))
  | ceil, vs => .number (Binary64.ceiling (firstNumber vs))
  | round, vs => .number (Binary64.round (firstNumber vs))
  | sqrt, vs => .number (firstNumber vs).sqrt
  | choose, vs => branch vs
  | len, vs => .number (Float.ofNat (firstText vs).length)
  | upper, vs => .text (Text.upper (firstText vs))
  | lower, vs => .text (Text.lower (firstText vs))

end StandardFunction

end Formula
