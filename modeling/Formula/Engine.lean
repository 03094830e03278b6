import Formula.Evaluation
import Formula.Notice

/-!
# Engines and rules

An engine holds what formulas are evaluated against: constants, functions and options. A rule is a
formula's text together with an engine; it is evaluated with variables, as often as one likes, and
keeps nothing from one evaluation to the next.

The empty text is a formula that holds. It is told apart before anything is read, so it holds under
every setting; a text of blanks alone is not empty and has no value.
-/

namespace Formula

/-- The answer to a request to evaluate a formula. -/
structure Evaluation where
  result : Except FormulaError Value
  /-- The calls of host functions that were made, in order. -/
  calls : List Call := []
  notices : List Notice := []

/-- What formulas are evaluated against. -/
structure Engine where
  constants : Table Value := ∅
  functions : Table Callable := ∅
  options : Options := {}

namespace Engine

def empty : Engine := {}

/-- An engine with the standard functions and nothing else. -/
def standard : Engine := { functions := standardFunctions }

end Engine

/-- A text with the engine that it is evaluated against. -/
structure Rule where
  engine : Engine
  source : String

/-- The answer for a text that is evaluated as `tokens`, before any notice of how they came
about. -/
def Evaluation.ofTokens (source : String) (tokens : List Token) (bindings : Table Value)
    (functions : Table Callable) (options : Options) : Evaluation :=
  let report := evaluateTokens tokens bindings functions options
  { result := report.result.mapError (FormulaError.mk source)
    calls := report.calls
    notices := report.ignored?.toList.map .ignored }

/-- The answer for the empty text. -/
def Evaluation.ofEmpty : Evaluation := { result := .ok (.boolean true) }

namespace Rule

/-- Evaluates a rule. Variables count before constants of the same name. -/
def evaluate (r : Rule) (bindings : Table Value) : Evaluation :=
  if r.source.isEmpty then .ofEmpty
  else
    let answer := Evaluation.ofTokens r.source (tokenize r.source)
      (r.engine.constants.overlay bindings) r.engine.functions r.engine.options
    { answer with notices := .evaluating r.source :: (Notice.ofSource r.source ++ answer.notices) }

end Rule

namespace Engine

/-- The rule of a text. -/
def rule (e : Engine) (source : String) : Rule := ⟨e, source⟩

/-- Evaluates a text. -/
def evaluate (e : Engine) (source : String) (bindings : Table Value) : Evaluation :=
  (e.rule source).evaluate bindings

end Engine

/-- Evaluates a text without constants or functions, under the default options. -/
def evaluate (source : String) (bindings : Table Value) : Evaluation :=
  Engine.empty.evaluate source bindings

end Formula
