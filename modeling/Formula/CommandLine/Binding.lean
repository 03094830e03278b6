import Formula.Value

/-!
# Bindings

A binding on the command line is written `NAME=VALUE` and split at its first equals sign. The name
is trimmed and must not be blank; the value is read as it stands, so that blanks around a text stay
in it.
-/

namespace Formula.CommandLine

/-- A text that should have been a binding. -/
structure BindingError where
  input : String
  deriving DecidableEq, Repr

def BindingError.message (e : BindingError) : String :=
  "Invalid binding '" ++ e.input ++ "': expected NAME=VALUE."

/-- What is before and what is behind the first equals sign. -/
def splitAtEquals? (cs : List Char) : Option (List Char × List Char) :=
  match cs.dropWhile (· != '=') with
  | [] => none
  | _ :: value => some (cs.takeWhile (· != '='), value)

/-- Reads a binding. -/
def parseBinding (input : String) : Except BindingError (String × Value) :=
  match splitAtEquals? input.toList with
  | some (name, value) =>
    if (Text.trim name).isEmpty then .error ⟨input⟩
    else .ok (String.ofList (Text.trim name), Value.ofText (String.ofList value))
  | none => .error ⟨input⟩

end Formula.CommandLine
