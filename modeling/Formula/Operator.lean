import Formula.Value

/-!
# Operators

An operator belongs to arithmetic or to comparison, and the type says to which. The two marks `=`
and `!` are operators to the tokenizer alone: no rule of the grammar takes them, so they can only
end an expression or be refused.
-/

namespace Formula

/-- The operators on numbers. -/
inductive Arithmetic where
  | add | subtract | multiply | divide | remainder
  deriving DecidableEq, Repr

namespace Arithmetic

/-- Whether an operator binds as loosely as addition; the others bind as multiplication does. -/
def isAdditive : Arithmetic → Bool
  | add | subtract => true
  | multiply | divide | remainder => false

/-- The result of an operator. Division by zero follows the arithmetic of doubles and is no
error. -/
def apply : Arithmetic → Float → Float → Float
  | add, x, y => x + y
  | subtract, x, y => x - y
  | multiply, x, y => x * y
  | divide, x, y => x / y
  | remainder, x, y => Binary64.remainder x y

def symbol : Arithmetic → String
  | add => "+"
  | subtract => "-"
  | multiply => "*"
  | divide => "/"
  | remainder => "%"

end Arithmetic

/-- The operators that compare two values. -/
inductive Comparison where
  | equal | notEqual | greater | less | greaterEqual | lessEqual
  deriving DecidableEq, Repr

namespace Comparison

/-- Whether a comparison holds. The two tests for equality look at the values themselves, the four
orderings at their numbers, so texts are never ordered by their letters. -/
def holds : Comparison → Value → Value → Bool
  | equal, v, w => v.looselyEquals w
  | notEqual, v, w => !v.looselyEquals w
  | greater, v, w => w.toNumber < v.toNumber
  | less, v, w => v.toNumber < w.toNumber
  | greaterEqual, v, w => w.toNumber ≤ v.toNumber
  | lessEqual, v, w => v.toNumber ≤ w.toNumber

def symbol : Comparison → String
  | equal => "=="
  | notEqual => "!="
  | greater => ">"
  | less => "<"
  | greaterEqual => ">="
  | lessEqual => "<="

end Comparison

/-- Every mark that the tokenizer takes for an operator. -/
inductive Operator where
  | arithmetic (op : Arithmetic)
  | comparison (op : Comparison)
  | equals
  | bang
  deriving DecidableEq, Repr

namespace Operator

def symbol : Operator → String
  | arithmetic op => op.symbol
  | comparison op => op.symbol
  | equals => "="
  | bang => "!"

/-- Every operator once. -/
def all : List Operator :=
  [.add, .subtract, .multiply, .divide, .remainder].map arithmetic
    ++ [.equal, .notEqual, .greater, .less, .greaterEqual, .lessEqual].map comparison
    ++ [equals, bang]

theorem mem_all (op : Operator) : op ∈ all := by
  rcases op with op | op | _ | _ <;> try cases op
  all_goals decide

/-- The operator with a given symbol. -/
def ofSymbol? (s : String) : Option Operator := all.find? (·.symbol == s)

/-- The arithmetic operator that an operator is. -/
def arithmetic? : Operator → Option Arithmetic
  | arithmetic op => some op
  | _ => none

/-- The comparison that an operator is. -/
def comparison? : Operator → Option Comparison
  | comparison op => some op
  | _ => none

end Operator

end Formula
