import Formula.CommandLine.Arguments
import Formula.Engine

/-!
# The program

What a command line prints and its exit status, as a function of the arguments and of the file they
may name. The value goes to standard output and every complaint to standard error; the status is `0`
for a value and `1` for a formula or a file that fails.

How the arguments are read is a parameter (`ArgumentParser`), because the program does not do it
itself. A command line that asks for no evaluation, such as one that cannot be read, is answered by
the parser alone.
-/

namespace Formula.CommandLine

/-- Why a file could not be read. -/
inductive FileError where
  | notText
  /-- The system's own description and number. -/
  | system (description : String) (code : Nat)
  deriving DecidableEq, Repr

def FileError.message : FileError → String
  | notText => "stream did not contain valid UTF-8"
  | system description code => description ++ " (os error " ++ toString code ++ ")"

/-- What a run leaves behind. -/
structure Outcome where
  status : Nat
  output : String := ""
  complaint : String := ""
  deriving DecidableEq, Repr

/-- The text of a file without the line ends at its end. -/
def trimLineEnds (text : String) : String :=
  String.ofList
    (text.toList.reverse.dropWhile fun c ↦ c == '\r' || c == '\n').reverse

/-- One line for a token: its offset, at least four places wide, and its kind. -/
def tokenLine (t : Token) : String :=
  let offset := toString t.offset
  String.ofList (List.replicate (4 - offset.length) ' ') ++ offset ++ "  " ++ t.kind.display ++ "\n"

namespace Arguments

/-- The expression, once a file it may be in has been read. -/
def source (a : Arguments) (read : String → Except FileError String) :
    Except FileError String :=
  if a.file then (read a.expression).map trimLineEnds else .ok a.expression

/-- The options of the evaluation. -/
def options (a : Arguments) : Options where
  maxDepth := a.maxDepth
  strict := a.strict
  shortCircuit := a.shortCircuit

/-- The engine of a command line: the standard functions with the constants and options given. -/
def engine (a : Arguments) : Engine :=
  { Engine.standard with constants := Table.ofList a.constants, options := a.options }

/-- The value of an expression, or the complaint about it. -/
def value (a : Arguments) (source : String) : Outcome :=
  match (a.engine.evaluate source (Table.ofList a.bindings)).result with
  | .ok v => { status := 0, output := v.display ++ "\n" }
  | .error e => { status := 1, complaint := e.message ++ "\n" }

/-- What the program does with its arguments. -/
def outcome (a : Arguments) (read : String → Except FileError String) : Outcome :=
  match a.source read with
  | .error e =>
    { status := 1
      complaint :=
        "Failed to read the input file '" ++ a.expression ++ "': " ++ e.message ++ "\n" }
  | .ok source =>
    if a.tokens then
      { status := 0, output := String.join ((tokenize source).map tokenLine) }
    else a.value source

end Arguments

/-- A reader of command lines. It answers those itself that it does not accept. -/
abbrev ArgumentParser := List String → Except Outcome Arguments

/-- The outcome of a command line. -/
def ArgumentParser.run (parser : ArgumentParser) (arguments : List String)
    (read : String → Except FileError String) : Outcome :=
  match parser arguments with
  | .ok a => a.outcome read
  | .error answer => answer

end Formula.CommandLine
