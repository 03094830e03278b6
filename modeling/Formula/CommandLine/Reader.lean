import Formula.CommandLine.Arguments
import Formula.Options
import Formula.Text.ControlSequence

/-!
# A reader of command lines

The argument parser of the program belongs to another library. This reader follows the rules that
are documented for it, so that there is a program to run. The results about the program do not
mention it: it is one of the parsers that the program can rely on, and that is all that is proved of
it.

The arguments are read from left to right. Long options are written out, `--name value` or
`--name=value`; the short ones can be joined, as in `-ft`; `--` ends the options, so that an
expression can begin with a minus. One argument, anywhere, is the expression. Bindings can be
repeated, and nothing else can. Asking for help or for the version ends the reading.

## When a value is checked

A value that is an argument of its own is checked when the next option or the expression is taken
up, or at the end. An argument that fits nowhere is therefore refused before the value in front of
it is looked at, while an attached value is checked on the spot. Only a bad binding is reported in
words of its own, so this order decides which command lines are answered with them.
-/

namespace Formula.CommandLine

/-- How an option and its value are written. -/
def Setting.usage : Setting → String
  | .variable => "--var <NAME=VALUE>"
  | .constant => "--const <NAME=VALUE>"
  | .maxDepth => "--max-depth <MAX_DEPTH>"
  | .logLevel => "--log-level <LOG_LEVEL>"

/-- What can be asked about the program itself. -/
inductive Query where
  | help | version
  deriving DecidableEq, Repr

/-- What a name of an option can stand for. -/
inductive OptionKind where
  | switch (s : Switch)
  | setting (s : Setting)
  | query (q : Query)
  deriving DecidableEq, Repr

def longOption? (name : String) : Option OptionKind :=
  [("var", .setting .variable), ("const", .setting .constant), ("file", .switch .file),
    ("tokens", .switch .tokens), ("strict", .switch .strict),
    ("short-circuit", .switch .shortCircuit), ("max-depth", .setting .maxDepth),
    ("log-level", .setting .logLevel), ("help", .query .help),
    ("version", .query .version)].lookup name

def shortOption? : Char → Option OptionKind
  | 'f' => some (.switch .file)
  | 't' => some (.switch .tokens)
  | 'h' => some (.query .help)
  | 'V' => some (.query .version)
  | _ => none

/-- Why a command line asks for no evaluation. -/
inductive UsageError where
  | asked (q : Query)
  /-- The value of an option is no binding. -/
  | binding (option : Setting) (e : BindingError)
  | unknownArgument (argument : String)
  /-- A value is attached to an option that takes none. -/
  | unexpectedValue (argument : String)
  | missingValue (option : Setting)
  | repeated (argument : String)
  | invalidDepth (value : String)
  | missingExpression
  deriving DecidableEq, Repr

/-- The message about a value that an option does not take, and why it does not. -/
def invalidValue (option : Setting) (value reason : String) : String :=
  "invalid value '" ++ Text.styled value ++ "' for '" ++ Text.styled option.usage ++ "': " ++ reason

/-- The message of a usage error, styled for a terminal. -/
def UsageError.message : UsageError → String
  | asked .help => "help was requested"
  | asked .version => "the version was requested"
  | binding option e => invalidValue option e.input e.message
  | unknownArgument a => "unexpected argument '" ++ Text.styled a ++ "' found"
  | unexpectedValue a => "unexpected value in '" ++ Text.styled a ++ "' found"
  | missingValue option =>
    "a value is required for '" ++ Text.styled option.usage ++ "' but none was supplied"
  | repeated a => "the argument '" ++ Text.styled a ++ "' cannot be used multiple times"
  | invalidDepth v => invalidValue .maxDepth v "invalid number"
  | missingExpression => "no expression was given"

/-- What has been taken in. -/
structure Taken where
  bindings : List (String × Value) := []
  constants : List (String × Value) := []
  switches : List Switch := []
  maxDepth : Option Nat := none
  logLevel : Option String := none
  expression : Option String := none

def dropPlus : List Char → List Char
  | '+' :: cs => cs
  | cs => cs

/-- A nesting depth: digits, with an optional plus in front, that fit a word of 64 bits. -/
def parseDepth? (s : String) : Option Nat :=
  let digits := dropPlus s.toList
  if digits.isEmpty || !digits.all Char.isDigit then none
  else
    let n := Decimal.ofDigits digits
    if n < 0x10000000000000000 then some n else none

namespace Taken

def addSwitch (a : Taken) (s : Switch) (written : String) : Except UsageError Taken :=
  if a.switches.contains s then .error (.repeated written)
  else .ok { a with switches := a.switches ++ [s] }

/-- Takes in the value of an option. -/
def addSetting (a : Taken) (value : String) : Setting → Except UsageError Taken
  | .variable => do
    let binding ← (parseBinding value).mapError (.binding .variable)
    return { a with bindings := a.bindings ++ [binding] }
  | .constant => do
    let binding ← (parseBinding value).mapError (.binding .constant)
    return { a with constants := a.constants ++ [binding] }
  | .maxDepth =>
    if a.maxDepth.isSome then .error (.repeated "--max-depth")
    else match parseDepth? value with
      | some n => .ok { a with maxDepth := some n }
      | none => .error (.invalidDepth value)
  | .logLevel =>
    if a.logLevel.isSome then .error (.repeated "--log-level")
    else .ok { a with logLevel := some value }

end Taken

/-- How far the arguments have been read. -/
structure Reading where
  taken : Taken := {}
  /-- An option whose value, if it has come, has not been taken in. -/
  pending : Option (Setting × Option String) := none
  /-- Whether `--` has been read. -/
  optionsEnded : Bool := false

namespace Reading

/-- Takes in the value of the option that is pending. -/
def settle (r : Reading) : Except UsageError Reading :=
  match r.pending with
  | none => .ok r
  | some (s, none) => .error (.missingValue s)
  | some (s, some value) => do
    return { r with taken := ← r.taken.addSetting value s, pending := none }

def takeSwitch (r : Reading) (s : Switch) (written : String) : Except UsageError Reading := do
  let r ← r.settle
  return { r with taken := ← r.taken.addSwitch s written }

/-- Takes up a long option and the value attached to it. -/
def takeLong (r : Reading) (name : String) (value : Option String) (written : String) :
    Except UsageError Reading :=
  match longOption? name, value with
  | none, _ => .error (.unknownArgument written)
  | some (.switch s), none => r.takeSwitch s written
  | some (.switch _), some _ | some (.query _), some _ => .error (.unexpectedValue written)
  | some (.query q), none => do
    let _ ← r.settle
    throw (.asked q)
  | some (.setting s), none => do
    return { ← r.settle with pending := some (s, none) }
  | some (.setting s), some value => do
    let r ← r.settle
    return { r with taken := ← r.taken.addSetting value s }

/-- Takes up joined short options. -/
def takeShorts (r : Reading) (written : String) : List Char → Except UsageError Reading
  | [] => .ok r
  | c :: cs =>
    match shortOption? c with
    | some (.switch s) => do (← r.takeSwitch s written).takeShorts written cs
    | some (.query q) => do
      let _ ← r.settle
      throw (.asked q)
    | some (.setting _) | none => .error (.unknownArgument written)

/-- Takes an argument for the expression. -/
def takeExpression (r : Reading) (argument : String) : Except UsageError Reading :=
  if r.taken.expression.isSome then .error (.unknownArgument argument)
  else do
    let r ← r.settle
    return { r with taken := { r.taken with expression := some argument } }

/-- Takes an argument that is not written like an option: a value that is waited for, or the
expression. -/
def takePlain (r : Reading) (argument : String) : Except UsageError Reading :=
  match r.pending with
  | some (s, none) => .ok { r with pending := some (s, some argument) }
  | _ => r.takeExpression argument

/-- Takes one argument. -/
def take (r : Reading) (argument : String) : Except UsageError Reading :=
  if r.optionsEnded then r.takeExpression argument
  else match argument.toList with
    | ['-', '-'] => .ok { r with optionsEnded := true }
    | '-' :: '-' :: body =>
      match splitAtEquals? body with
      | some (name, value) =>
        r.takeLong (String.ofList name) (some (String.ofList value)) argument
      | none => r.takeLong (String.ofList body) none argument
    | '-' :: c :: cs => r.takeShorts argument (c :: cs)
    | _ => r.takePlain argument

end Reading

/-- Reads a command line. -/
def readArguments (arguments : List String) : Except UsageError Arguments := do
  let r ← arguments.foldlM Reading.take {}
  let taken := (← r.settle).taken
  match taken.expression with
  | none => throw .missingExpression
  | some expression =>
    return {
      bindings := taken.bindings
      constants := taken.constants
      file := taken.switches.contains .file
      tokens := taken.switches.contains .tokens
      strict := taken.switches.contains .strict
      shortCircuit := taken.switches.contains .shortCircuit
      maxDepth := taken.maxDepth.getD ({} : Options).maxDepth
      expression }

end Formula.CommandLine
