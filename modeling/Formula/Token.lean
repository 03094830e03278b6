import Formula.Operator
import Formula.Text.Quoted

/-!
# Tokens

A token is a kind, which carries the payload of a literal or a name, and the byte offset at which
it starts in the source. The keywords `and`, `or` and `not` are identifiers: what makes one a
keyword is where it stands.
-/

namespace Formula

/-- What was read, without its place. -/
inductive TokenKind where
  | number (x : Float)
  | text (s : String)
  | boolean (b : Bool)
  | identifier (name : String)
  | operator (op : Operator)
  | openParen
  | closeParen
  | comma
  | endOfInput
  deriving DecidableEq

namespace TokenKind

/-- Whether a token is the identifier `word`. -/
def isKeyword (word : String) : TokenKind → Bool
  | identifier name => name == word
  | _ => false

/-- The arithmetic operator that a token is. -/
def arithmetic? : TokenKind → Option Arithmetic
  | operator op => op.arithmetic?
  | _ => none

/-- The comparison that a token is. -/
def comparison? : TokenKind → Option Comparison
  | operator op => op.comparison?
  | _ => none

/-- How messages describe a token. -/
def display : TokenKind → String
  | number x => "number " ++ Number.text x
  | text s => "string " ++ Text.quoted s
  | boolean b => "boolean " ++ Value.boolText b
  | identifier name => "identifier '" ++ name ++ "'"
  | operator op => "operator '" ++ op.symbol ++ "'"
  | openParen => "'('"
  | closeParen => "')'"
  | comma => "','"
  | endOfInput => "end of input"

/-- Kinds are equal if their payloads are; what is not a number does not equal itself. -/
def equals : TokenKind → TokenKind → Bool
  | number x, number y => x == y
  | a, b => a == b

end TokenKind

/-- A token and the byte offset of its first character in the source. -/
structure Token where
  kind : TokenKind
  offset : Nat
  deriving DecidableEq

namespace Token

def equals (t u : Token) : Bool := t.kind.equals u.kind && t.offset == u.offset

end Token

end Formula
