/-!
# Control sequences

A text for a terminal holds, beside the characters to show, control sequences that set styles and
titles. Elsewhere it is shown plain: without its control sequences, and without any other control
character that is not layout.

## Where a sequence ends

An escape character begins a sequence, and what follows it tells the kind. A *style* runs up to its
first letter. A *title* and a *message* hold any text at all up to a terminator, so that even a line
end inside one is not shown. An escape character anywhere begins a new sequence, so an unfinished
one ends there at the latest.

## Interrupted sequences

In a style, and before the kind is settled, a line end is shown, as is any other layout control, and
interrupts the sequence: what follows is shown as well. The next control that is not shown resumes
the sequence where it stood, and a character outside ASCII gives it up.
-/

namespace Formula.Text

/-- What the characters read so far have begun. -/
inductive SequenceStage where
  /-- No sequence. -/
  | shown
  /-- An escape character has been read. -/
  | escape
  /-- A sequence with signs in front of the character that ends it. -/
  | signs
  /-- A sequence with parameters, as styles have. -/
  | style
  /-- A text that the bell character ends, as the title of a window. -/
  | title
  /-- The start of what comes before the text of a message for a device. -/
  | header
  /-- The parameters of a header. -/
  | headerParameters
  /-- The signs of a header, behind its parameters. -/
  | headerSigns
  /-- A text for a device or a program. -/
  | message
  deriving DecidableEq, Repr

namespace SequenceStage

/-- The controls that are shown. -/
def isLayout (c : Char) : Bool := c == '\t' || c == '\n' || c == '\x0c' || c == '\r'

/-- Whether a character is shown where no sequence has begun. -/
def isShown (c : Char) : Bool := isLayout c || (0x20 ≤ c.toNat && c != '\x7f')

/-- The kind of sequence that a visible character behind an escape character begins; most are
complete with it. -/
def kindOf (c : Char) : SequenceStage :=
  match c with
  | '[' => style
  | ']' => title
  | 'P' => header
  | 'X' | '^' | '_' => message
  | c => if c < '0' then signs else shown

/-- Whether a character ends a message. Its terminator is the byte `9C`, also as one of the bytes
of a character. -/
def endsMessage (c : Char) : Bool := (String.utf8EncodeChar c).contains 0x9C

/-- The stage behind a visible character of a sequence that holds no text. A header that breaks the
order of its parts is skipped up to the terminator of a message. -/
def afterVisible (stage : SequenceStage) (c : Char) : SequenceStage :=
  match stage with
  | escape => kindOf c
  | signs => if c < '0' then signs else shown
  | style => if c < '@' then style else shown
  | header => if c < '0' then headerSigns else if c < '@' then headerParameters else message
  | headerParameters =>
    if c < '0' then headerSigns else if c < '<' then headerParameters else message
  | headerSigns => if c < '0' then headerSigns else message
  | stage => stage

/-- The stage behind a character that neither begins a sequence nor interrupts one. -/
def after (stage : SequenceStage) (c : Char) : SequenceStage :=
  match stage with
  | title => if c == '\x07' then shown else title
  | message => if endsMessage c then shown else message
  | stage => if 0x20 ≤ c.toNat && c.toNat < 0x7F then stage.afterVisible c else stage

/-- Whether layout controls are shown inside a sequence. -/
def isInterruptible : SequenceStage → Bool
  | escape | signs | style => true
  | _ => false

end SequenceStage

/-- Where the reading of a text for a terminal stands. -/
structure SequenceReader where
  /-- What has begun. -/
  stage : SequenceStage := .shown
  /-- Whether a layout control has interrupted it. -/
  isInterrupted : Bool := false
  deriving DecidableEq, Repr

namespace SequenceReader

open SequenceStage (isLayout isShown)

/-- The reader at the start of a text. -/
def start : SequenceReader := {}

/-- Reads one character: the reader behind it, and whether it is shown. -/
def read (reader : SequenceReader) (c : Char) : SequenceReader × Bool :=
  if c == '\x1b' then ({ stage := .escape }, false)
  else if c == '\x18' || c == '\x1a' then (start, false)
  else if reader.stage == .shown then (start, isShown c)
  else if reader.isInterrupted && isShown c then (if c.toNat < 0x80 then reader else start, true)
  else if reader.stage.isInterruptible && isLayout c then
    ({ reader with isInterrupted := true }, true)
  else ({ stage := reader.stage.after c }, false)

/-- The characters of a text that are shown. -/
def visible (reader : SequenceReader) : List Char → List Char
  | [] => []
  | c :: cs =>
    let (next, isVisible) := reader.read c
    if isVisible then c :: next.visible cs else next.visible cs

end SequenceReader

/-- A text in a style that sets it apart on a terminal. -/
def styled (s : String) : String := "\x1b[1m" ++ s ++ "\x1b[0m"

/-- What is left of a text for a terminal where there is none. -/
def plain (s : String) : String := String.ofList (SequenceReader.start.visible s.toList)

end Formula.Text
