import Formula.Engine

/-!
# Compiled formulas

A text that was cut into tokens once, to be evaluated any number of times with nothing but
variables. It has options of its own and neither constants nor functions.
-/

namespace Formula

structure Compiled where
  source : String
  tokens : List Token
  options : Options := {}

/-- The compiled form of a text, under the default options. -/
def compile (source : String) : Compiled := { source, tokens := tokenize source }

namespace Compiled

def withOptions (c : Compiled) (options : Options) : Compiled := { c with options }

/-- Evaluates a compiled formula; the empty text holds, as it does for an engine. -/
def evaluate (c : Compiled) (bindings : Table Value) : Evaluation :=
  if c.source.isEmpty then .ofEmpty
  else .ofTokens c.source c.tokens bindings ∅ c.options

/-- Whether two lists of tokens are equal one by one. -/
def sameTokens : List Token → List Token → Bool
  | [], [] => true
  | t :: ts, u :: us => t.equals u && sameTokens ts us
  | _, _ => false

/-- Compiled formulas are equal in text, tokens and options. One with a malformed numeral in it
differs even from itself, because no such number equals another. -/
def equals (c d : Compiled) : Bool :=
  c.source == d.source && sameTokens c.tokens d.tokens && c.options == d.options

end Compiled

end Formula
