import Formula.CommandLine.Binding

/-!
# Command-line arguments

What a command line can give, and what the program gets of it. The program declares its options and
leaves the reading of a command line to an argument parser that is not its own. What comes back has
a value for everything: repeated options are in order, a flag that is not given is off, and what
else is not given is at its default.
-/

namespace Formula.CommandLine

/-- Options without a value. -/
inductive Switch where
  | file | tokens | strict | shortCircuit
  deriving DecidableEq, Repr

/-- Options with a value. -/
inductive Setting where
  | variable | constant | maxDepth | logLevel
  deriving DecidableEq, Repr

/-- What the program gets of a command line. How much is logged is left out, since notices are not
printed. -/
structure Arguments where
  /-- The variables, in the order in which they are given. -/
  bindings : List (String × Value)
  constants : List (String × Value)
  /-- Whether `expression` names a file that holds the expression. -/
  file : Bool
  /-- Whether the tokens are asked for and not the value. -/
  tokens : Bool
  strict : Bool
  shortCircuit : Bool
  maxDepth : Nat
  expression : String

end Formula.CommandLine
