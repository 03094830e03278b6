import Formula.Function.Standard
import Formula.Table

/-!
# Functions

What a name in front of a bracket can stand for: a standard function, or one that the host supplies.
Both get the evaluated arguments, however many there are, and both always answer. They differ in
that a host may care how often and with what it was called, so only its functions leave a trace in
the record of calls.

The result of a host function is taken to depend on the arguments alone. What it does besides, to a
state of its own, is the host's affair, and the only thing seen of it here is the record: which
calls are made, with which arguments and in which order.
-/

namespace Formula

/-- A function that a formula can call. -/
inductive Callable where
  | standard (f : StandardFunction)
  | host (f : List Value → Value)

namespace Callable

def apply : Callable → List Value → Value
  | standard f, arguments => f.apply arguments
  | host f, arguments => f arguments

/-- Whether calls of a function are recorded. -/
def isHost : Callable → Bool
  | standard _ => false
  | host _ => true

end Callable

/-- A call of a host function: the name it was called by, and the arguments. -/
structure Call where
  name : String
  arguments : List Value
  deriving DecidableEq

/-- The standard functions under their names. -/
def standardFunctions : Table Callable :=
  Table.ofList (StandardFunction.all.map fun f ↦ (f.name, .standard f))

end Formula
