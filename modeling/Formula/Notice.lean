import Formula.Tokenization

/-!
# Notices

What an evaluation has to say beside its result. Notices are part of the answer and not of some log,
so that whoever asks decides where they go.
-/

namespace Formula

/-- How much a notice matters. -/
inductive Severity where
  | warn | debug | trace
  deriving DecidableEq, Repr

inductive Notice where
  /-- A character of the source belongs to no token. -/
  | stray (s : Stray)
  /-- A source was cut into this many tokens, the end marker among them. -/
  | tokenized (count : Nat)
  /-- The evaluation of a text begins. -/
  | evaluating (source : String)
  /-- This token, and what is behind it, was left unread. -/
  | ignored (t : Token)
  deriving DecidableEq

namespace Notice

def severity : Notice → Severity
  | stray _ => .warn
  | tokenized _ => .trace
  | evaluating _ | ignored _ => .debug

def message : Notice → String
  | stray _ => "skipping unrecognized character"
  | tokenized _ => "tokenized expression"
  | evaluating _ => "evaluating expression"
  | ignored _ => "ignoring trailing tokens"

/-- The notices of the tokenization of a source. -/
def ofSource (source : String) : List Notice :=
  (strays source).map stray ++ [tokenized (tokenize source).length]

end Notice

end Formula
