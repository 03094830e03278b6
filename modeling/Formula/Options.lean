/-!
# Options

The settings of an evaluation. The defaults are the lenient ones: what follows a complete expression
is ignored, a closing bracket may be missing, and both operands of `and` and `or` are evaluated.
-/

namespace Formula

structure Options where
  /-- How deeply groups, call arguments and `not` may nest. The expression as a whole is the first
  level. -/
  maxDepth : Nat := 128
  /-- Whether a missing closing bracket and leftover tokens are errors. -/
  strict : Bool := false
  /-- Whether the right operand of `and` and `or` is passed over, without look-ups and calls, when
  the left one decides. -/
  shortCircuit : Bool := false
  deriving DecidableEq, Repr, Inhabited

end Formula
