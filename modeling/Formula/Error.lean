import Formula.Token

/-!
# Errors

The ways in which an evaluation fails, each with the byte offset it is reported at. What was found
in the wrong place is kept as a token and put into words only by `message`.
-/

namespace Formula

/-- Why an evaluation failed. -/
inductive EvalError where
  | undefinedVariable (name : String) (offset : Nat)
  | undefinedFunction (name : String) (offset : Nat)
  /-- A value was needed where this token stands. -/
  | unexpectedToken (token : TokenKind) (offset : Nat)
  | depthExceeded (limit : Nat) (offset : Nat)
  | unclosedParen (offset : Nat)
  /-- The first token behind a complete expression. -/
  | trailingTokens (token : TokenKind) (offset : Nat)
  deriving DecidableEq

namespace EvalError

/-- The byte offset of the token at which the failure was noticed. -/
def offset : EvalError → Nat
  | undefinedVariable _ n | undefinedFunction _ n | unexpectedToken _ n | depthExceeded _ n
  | unclosedParen n | trailingTokens _ n => n

/-- What went wrong, without the place. -/
def reason : EvalError → String
  | undefinedVariable name _ => "Undefined variable '" ++ name ++ "'"
  | undefinedFunction name _ => "Undefined function '" ++ name ++ "'"
  | unexpectedToken token _ => "Unexpected token: " ++ token.display
  | depthExceeded limit _ => "Expression nesting exceeds the limit of " ++ toString limit
  | unclosedParen _ => "Expected closing parenthesis ')' but none found"
  | trailingTokens token _ => "Extra tokens after expression: " ++ token.display

def message (e : EvalError) : String :=
  "Error at offset " ++ toString e.offset ++ ": " ++ e.reason ++ "."

end EvalError

/-- The failure of a formula: its text and the reason. -/
structure FormulaError where
  source : String
  cause : EvalError
  deriving DecidableEq

namespace FormulaError

def message (e : FormulaError) : String :=
  "Failed to evaluate expression \"" ++ e.source ++ "\": " ++ e.cause.message

end FormulaError

end Formula
