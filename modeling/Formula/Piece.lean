import Formula.Operator

/-!
# The pieces of a source

A source is cut from left to right into pieces, each as long as its form allows: blanks, numerals,
words, quoted texts, operators, brackets and commas, and single characters of no other form. The cut
loses nothing, since a piece keeps the characters it was made of.

## What is taken of the scanner

A generated scanner is described by patterns, and three things of it count here. The longest match
wins. The words `true` and `false` come before the pattern of names, so a word of just these letters
is a truth value and a longer one is a name. A character where no pattern matches makes a piece of
its own, one character long.

## One character at a time

A piece is begun by one character and then takes further ones as long as it can, so the longest
match needs no look-ahead: whether a character belongs to the piece before it depends on that
piece's form alone. For a quoted text the form holds what has been read of its content and whether
the next character is taken as it stands, and for an operator that `=` may follow, the operator so
far.
-/

namespace Formula

/-- How far a quoted text has been read. -/
inductive QuoteStage where
  /-- Inside the quotes. -/
  | inside
  /-- Behind a backslash, so that the next character is content whatever it is. -/
  | escaped
  /-- Behind the closing quote. -/
  | closed
  deriving DecidableEq, Repr

/-- What a piece is. -/
inductive PieceForm where
  | blank
  | number
  | word
  /-- A text in quotes: the quote, the content without escaping backslashes, and the stage. -/
  | quoted (quote : Char) (content : String) (stage : QuoteStage)
  | operator (op : Operator)
  | openParen
  | closeParen
  | comma
  /-- A character that no other piece takes. -/
  | stray
  deriving DecidableEq, Repr

/-- A stretch of a source with its form. -/
structure Piece where
  form : PieceForm
  source : String
  deriving DecidableEq, Repr

namespace Piece

/-! ## Classes of characters -/

/-- The blanks between tokens. -/
def isBlank (c : Char) : Bool := c == ' ' || c == '\t' || c == '\r' || c == '\n' || c == '\x0c'

def isNumber (c : Char) : Bool := c.isDigit || c == '.'

def beginsWord (c : Char) : Bool := c.isAlpha || c == '_'

def isWord (c : Char) : Bool := beginsWord c || isNumber c

/-! ## Growing a piece -/

/-- The form of a piece that begins with `c`. -/
def formOf (c : Char) : PieceForm :=
  if isBlank c then .blank
  else if isNumber c then .number
  else if beginsWord c then .word
  else match c with
    | '"' | '\x27' => .quoted c "" .inside
    | '(' => .openParen
    | ')' => .closeParen
    | ',' => .comma
    | '+' => .operator (.arithmetic .add)
    | '-' => .operator (.arithmetic .subtract)
    | '*' => .operator (.arithmetic .multiply)
    | '/' => .operator (.arithmetic .divide)
    | '%' => .operator (.arithmetic .remainder)
    | '>' => .operator (.comparison .greater)
    | '<' => .operator (.comparison .less)
    | '=' => .operator .equals
    | '!' => .operator .bang
    | _ => .stray

/-- The operator that `=` makes of the one before it. -/
def followedByEquals? : Operator → Option Operator
  | .comparison .greater => some (.comparison .greaterEqual)
  | .comparison .less => some (.comparison .lessEqual)
  | .equals => some (.comparison .equal)
  | .bang => some (.comparison .notEqual)
  | _ => none

/-- The form of a piece after it takes `c`, if it does. -/
def grownForm? (c : Char) : PieceForm → Option PieceForm
  | .blank => if isBlank c then some .blank else none
  | .number => if isNumber c then some .number else none
  | .word => if isWord c then some .word else none
  | .quoted quote content .inside =>
    if c = quote then some (.quoted quote content .closed)
    else if c = '\\' then some (.quoted quote content .escaped)
    else some (.quoted quote (content.push c) .inside)
  | .quoted quote content .escaped => some (.quoted quote (content.push c) .inside)
  | .operator op => if c = '=' then (followedByEquals? op).map .operator else none
  | _ => none

/-- The piece that begins with `c`. -/
def start (c : Char) : Piece := ⟨formOf c, String.singleton c⟩

/-- A piece with one more character, if it takes it. -/
def grow? (p : Piece) (c : Char) : Option Piece :=
  (grownForm? c p.form).map fun form ↦ ⟨form, p.source.push c⟩

/-- The pieces of a text that continues the piece `p`. -/
def splitFrom (p : Piece) : List Char → List Piece
  | [] => [p]
  | c :: cs =>
    match p.grow? c with
    | some grown => splitFrom grown cs
    | none => p :: splitFrom (start c) cs

/-- The pieces of a text. -/
def split : List Char → List Piece
  | [] => []
  | c :: cs => splitFrom (start c) cs

/-- The number of bytes that a piece takes in the source. -/
def size (p : Piece) : Nat := p.source.utf8ByteSize

end Piece

end Formula
