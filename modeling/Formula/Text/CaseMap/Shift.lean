/-!
# Shifts of case

Most case mappings add one constant over a run of neighbouring letters, or over every second letter
where upper and lower case alternate. A `CaseShift` is one such run.
-/

namespace Formula.Text

/-- Every `step`-th code point from `first` to `last` maps to the one `shift` further on. -/
structure CaseShift where
  first : Nat
  last : Nat
  step : Nat
  shift : Int

namespace CaseShift

def covers (s : CaseShift) (n : Nat) : Bool :=
  s.first ≤ n && n ≤ s.last && (n - s.first) % s.step == 0

/-- The image of a code point under the first of the shifts that covers it. -/
def apply (shifts : List CaseShift) (n : Nat) : Nat :=
  match shifts.find? (·.covers n) with
  | some s => (n + s.shift).toNat
  | none => n

end CaseShift

end Formula.Text
