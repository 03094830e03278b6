import Formula.CommandLine.Program
import Formula.CommandLine.Reader

/-!
# The outcome of a command line

The program, run with a reader of command lines. What that reader answers itself is worded here: the
status is `0` for help and the version, which go to standard output, and `2` for arguments that
cannot be read, with a complaint on standard error.
-/

namespace Formula.CommandLine

/-- The complaint about a command line, styled for a terminal. -/
def UsageError.complaint (e : UsageError) : String :=
  Text.styled "error:" ++ " " ++ e.message ++ "\n\nFor more information, try '"
    ++ Text.styled "--help" ++ "'.\n"

/-- What is said about each argument where it is declared. -/
def helpText : String :=
  "ruleval evaluates a rule expression against command-line bindings and prints the result\n\n"
    ++ "Usage: ruleval [OPTIONS] <EXPRESSION>\n\n"
    ++ "Arguments:\n"
    ++ "  <EXPRESSION>  \n\n"
    ++ "Options:\n"
    ++ "      --var <NAME=VALUE>       Binds a variable, written as NAME=VALUE. Repeatable\n"
    ++ "      --const <NAME=VALUE>     Registers a constant, written as NAME=VALUE. Variables of "
    ++ "the same name take precedence. Repeatable\n"
    ++ "  -f, --file                   Treats the expression argument as a path and reads the "
    ++ "expression from that file\n"
    ++ "  -t, --tokens                 Prints the token stream instead of evaluating\n"
    ++ "      --strict                 Rejects unclosed parentheses and trailing tokens\n"
    ++ "      --short-circuit          Skips the right operand of `and`/`or` once the result is "
    ++ "decided\n"
    ++ "      --max-depth <MAX_DEPTH>  Maximum nesting depth of groups, call arguments and `not` "
    ++ "prefixes [default: 128]\n"
    ++ "      --log-level <LOG_LEVEL>  Log filter such as `debug` or `ruleval=trace`. Falls back "
    ++ "to the RULEVAL_LOG environment variable, then to `warn`\n"
    ++ "  -h, --help                   Print help\n"
    ++ "  -V, --version                Print version\n"

def versionText : String := "ruleval 0.1.0\n"

/-- The outcome of a command line that asks for no evaluation. A complaint is written plain as a
whole, so a control sequence in an argument disappears from it, and an unfinished one takes along
what follows it. -/
def UsageError.outcome : UsageError → Outcome
  | asked .help => { status := 0, output := helpText }
  | asked .version => { status := 0, output := versionText }
  | e => { status := 2, complaint := Text.plain e.complaint }

/-- The reader as the parser of the program. -/
def reader : ArgumentParser := fun arguments ↦
  (readArguments arguments).mapError UsageError.outcome

/-- The outcome of a command line. -/
def run (arguments : List String) (read : String → Except FileError String) : Outcome :=
  reader.run arguments read

end Formula.CommandLine
