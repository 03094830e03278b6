import Formula.CommandLine.Outcome

/-!
# The command line

Reads the file that the arguments may name, and prints the outcome.
-/

open Formula.CommandLine

/-- The number of a failure, which may be reported with its sign turned. -/
def failureNumber (code : UInt32) : Nat := (min code (-code)).toNat

/-- The system's description of a failure and its number. -/
def describe : IO.Error → String × Nat
  | .noFileOrDirectory _ code _ => ("No such file or directory", failureNumber code)
  | .permissionDenied _ code _ => ("Permission denied", failureNumber code)
  | .inappropriateType _ code _ =>
    (if failureNumber code = 21 then "Is a directory" else "Not a directory", failureNumber code)
  | .invalidArgument _ code _ => ("File name too long", failureNumber code)
  | e => (toString e, 5)

/-- The contents of a file, or the reason why there are none. -/
def readSource (path : String) : IO (Except FileError String) := do
  try
    match String.fromUTF8? (← IO.FS.readBinFile path) with
    | some text => return .ok text
    | none => return .error .notText
  catch e =>
    let (description, code) := describe e
    return .error (.system description code)

def main (arguments : List String) : IO UInt32 := do
  let outcome ← match reader arguments with
    | .error answer => pure answer
    | .ok a =>
      let text ← if a.file then readSource a.expression else pure (.ok "")
      pure (a.outcome fun _ ↦ text)
  IO.print outcome.output
  IO.eprint outcome.complaint
  return outcome.status.toUInt32
