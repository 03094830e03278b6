import Formula.Compiled

/-!
# Sessions

A session is a stretch of work with several engines and compiled formulas, each under a name. A
request changes the state, asks for an evaluation or shows what is registered. Requests are data and
a session is a plain value, so what earlier requests can do to a later answer is a question about
`Session.perform` alone: it rewrites at most one entry, and an evaluation rewrites none.

An engine that was never mentioned is there all the same, and empty. A compiled formula has to be
made before it is used.

A rule is not kept between requests. It borrows its engine, so as long as there is a rule the engine
cannot be changed, and whenever the rule is evaluated the engine is what it was when the rule was
made. To make it and evaluate it in one request says the same.

Nothing but engines and compiled formulas is remembered from one request to the next. What a host
function does besides answering is seen in the calls of an evaluation and nowhere else, since its
result is taken to depend on the arguments alone.
-/

namespace Formula

/-- Engines and compiled formulas by name. -/
structure Session where
  engines : Table Engine := ∅
  compiled : Table Compiled := ∅

/-- What a session can be asked to do. The first argument names what it is done to. -/
inductive Request where
  /-- Starts an engine anew, with or without the standard functions. -/
  | reset (engine : String) (standard : Bool)
  | setConstant (engine name : String) (value : Value)
  | removeConstant (engine name : String)
  | setFunction (engine name : String) (f : Callable)
  | removeFunction (engine name : String)
  | setOptions (engine : String) (options : Options)
  /-- Copies an engine as it is now to another name. -/
  | clone (engine copy : String)
  /-- Shows what is registered with an engine. -/
  | inspect (engine : String)
  | evaluate (engine source : String) (bindings : Table Value)
  /-- Makes a rule and evaluates it once for each set of variables. -/
  | evaluateRule (engine source : String) (runs : List (Table Value))
  /-- Evaluates a text without any engine. -/
  | evaluatePlain (source : String) (bindings : Table Value)
  | compile (name source : String) (options : Options)
  | setCompiledOptions (name : String) (options : Options)
  | evaluateCompiled (name : String) (bindings : Table Value)
  /-- Tests two compiled formulas for equality. -/
  | compare (left right : String)

/-- What a session answers. -/
inductive Answer where
  | done
  | removedConstant (value : Option Value)
  | removedFunction (existed : Bool)
  /-- Constants and names of functions, both sorted by name, and the options. -/
  | registered (constants : List (String × Value)) (functions : List String) (options : Options)
  | evaluation (e : Evaluation)
  | ruleRuns (source : String) (runs : List Evaluation)
  | compiled (c : Compiled)
  | equality (equal : Bool)
  /-- There is no compiled formula of this name. -/
  | unknownCompiled (name : String)

namespace Session

def engine (s : Session) (name : String) : Engine := (s.engines.get? name).getD .empty

/-- Replaces an engine. -/
def putEngine (s : Session) (name : String) (e : Engine) : Session :=
  { s with engines := s.engines.insert name e }

/-- The answer about a compiled formula, if there is one of the name. -/
def withCompiled (s : Session) (name : String) (answer : Compiled → Answer) : Answer :=
  match s.compiled.get? name with
  | some c => answer c
  | none => .unknownCompiled name

/-- Carries out one request. -/
def perform (s : Session) : Request → Session × Answer
  | .reset engine standard =>
    (s.putEngine engine (if standard then .standard else .empty), .done)
  | .setConstant engine name value =>
    let e := s.engine engine
    (s.putEngine engine { e with constants := e.constants.insert name value }, .done)
  | .removeConstant engine name =>
    let e := s.engine engine
    (s.putEngine engine { e with constants := e.constants.erase name },
      .removedConstant (e.constants.get? name))
  | .setFunction engine name f =>
    let e := s.engine engine
    (s.putEngine engine { e with functions := e.functions.insert name f }, .done)
  | .removeFunction engine name =>
    let e := s.engine engine
    (s.putEngine engine { e with functions := e.functions.erase name },
      .removedFunction (e.functions.contains name))
  | .setOptions engine options =>
    (s.putEngine engine { s.engine engine with options }, .done)
  | .clone engine copy => (s.putEngine copy (s.engine engine), .done)
  | .inspect engine =>
    let e := s.engine engine
    (s, .registered e.constants.sorted (e.functions.sorted.map (·.1)) e.options)
  | .evaluate engine source bindings =>
    (s, .evaluation ((s.engine engine).evaluate source bindings))
  | .evaluateRule engine source runs =>
    let rule := (s.engine engine).rule source
    (s, .ruleRuns rule.source (runs.map rule.evaluate))
  | .evaluatePlain source bindings => (s, .evaluation (Formula.evaluate source bindings))
  | .compile name source options =>
    let c := (Formula.compile source).withOptions options
    ({ s with compiled := s.compiled.insert name c }, .compiled c)
  | .setCompiledOptions name options =>
    match s.compiled.get? name with
    | some c => ({ s with compiled := s.compiled.insert name (c.withOptions options) }, .done)
    | none => (s, .unknownCompiled name)
  | .evaluateCompiled name bindings =>
    (s, s.withCompiled name fun c ↦ .evaluation (c.evaluate bindings))
  | .compare left right =>
    (s, s.withCompiled left fun c ↦ s.withCompiled right fun d ↦ .equality (c.equals d))

/-- Carries out a list of requests and collects the answers. -/
def performAll (s : Session) : List Request → Session × List Answer
  | [] => (s, [])
  | r :: rs =>
    let (next, answer) := s.perform r
    let (last, answers) := next.performAll rs
    (last, answer :: answers)

end Session

end Formula
