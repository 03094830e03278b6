import Formula.Piece
import Formula.Token

/-!
# The tokens of a source

A source is trimmed, cut into pieces, and every piece that is not blank or stray gives one token.
Nothing makes this fail: a malformed numeral is a number that is not one, a text without a closing
quote ends with the source, and stray characters are passed over and reported.

## Negative literals

A minus is folded into the number behind it where only a value can follow: at the start, or behind
an opening bracket, an operator or a comma. The number has to follow directly and to begin with a
digit. Everywhere else the minus stays an operator, so `5-3` is a difference.
-/

namespace Formula

/-- A character that belongs to no token, with its byte offset. -/
structure Stray where
  character : Char
  offset : Nat
  deriving DecidableEq, Repr

/-- The kind of token that a piece gives, if it gives one. -/
def Piece.kind? (p : Piece) : Option TokenKind :=
  match p.form with
  | .blank | .stray => none
  | .number => some (.number (Number.ofLiteral p.source))
  | .word =>
    some (if p.source = "true" then .boolean true
      else if p.source = "false" then .boolean false
      else .identifier p.source)
  | .quoted _ content _ => some (.text content)
  | .operator op => some (.operator op)
  | .openParen => some .openParen
  | .closeParen => some .closeParen
  | .comma => some .comma

/-- The number of a piece that a minus can be folded into. -/
def Piece.digits? (p : Piece) : Option Float :=
  if p.form = .number && (p.source.toList.head?.map Char.isDigit).getD false then
    some (Number.ofLiteral p.source)
  else none

namespace Tokenization

/-- Whether a minus behind the given token can only be the sign of a literal. -/
def expectsValue : Option TokenKind → Bool
  | none | some .openParen | some (.operator _) | some .comma => true
  | _ => false

/-- The negative number that a token and the piece behind it make up. -/
def negative? (previous : Option TokenKind) (kind : TokenKind) (next : Piece) : Option Float :=
  if kind = .operator (.arithmetic .subtract) && expectsValue previous then
    next.digits?.map (-·)
  else none

/-- The tokens of the pieces that start at a byte offset behind a given token, with the end marker
behind the last. -/
def tokensFrom (previous : Option TokenKind) (offset : Nat) : List Piece → List Token
  | [] => [⟨.endOfInput, offset⟩]
  | p :: ps =>
    match p.kind?, ps with
    | none, ps => tokensFrom previous (offset + p.size) ps
    | some kind, [] => [⟨kind, offset⟩, ⟨.endOfInput, offset + p.size⟩]
    | some kind, q :: rest =>
      match negative? previous kind q with
      | some x =>
        ⟨.number x, offset⟩ :: tokensFrom (some (.number x)) (offset + p.size + q.size) rest
      | none => ⟨kind, offset⟩ :: tokensFrom (some kind) (offset + p.size) (q :: rest)

/-- The stray characters among the pieces that start at a byte offset. -/
def straysFrom (offset : Nat) : List Piece → List Stray
  | [] => []
  | p :: ps =>
    let later := straysFrom (offset + p.size) ps
    match p.form, p.source.toList with
    | .stray, c :: _ => ⟨c, offset⟩ :: later
    | _, _ => later

end Tokenization

/-- The byte offset at which the trimmed source begins. -/
def leadingBytes (source : String) : Nat :=
  (String.ofList (source.toList.takeWhile Text.isBlank)).utf8ByteSize

/-- The pieces of a source, blanks around it left out. -/
def piecesOf (source : String) : List Piece := Piece.split (Text.trim source.toList)

/-- The tokens of a source. The last one, and only the last, marks the end. -/
def tokenize (source : String) : List Token :=
  Tokenization.tokensFrom none (leadingBytes source) (piecesOf source)

/-- The characters of a source that belong to no token. -/
def strays (source : String) : List Stray :=
  Tokenization.straysFrom (leadingBytes source) (piecesOf source)

end Formula
