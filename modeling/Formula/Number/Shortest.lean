import Formula.Number.Decimal

/-!
# The shortest decimal of a double

A double is printed with the fewest digits that read back to it. The search goes from coarse to
fine grids of decimals: on the grid of multiples of `10 ^ e` only the two neighbours of the value
can be the shortest decimal, and a neighbour counts if reading it gives the double back. If both
do, the nearer one is taken, and of two equally near ones the upper.

Grids are numbered upwards from `10 ^ -1074`. Every double lies on that one, so the search ends
there at the latest, with the exact value, and needs no bound on the number of digits.
-/

namespace Formula.Decimal

open Binary64

/-- The neighbour of a value on the grid of multiples of `10 ^ e` that reads back to it, if there
is one. -/
def onGrid? (m : Nat) (e : Int) : Option Decimal :=
  let a := units m * Nat.pow 10 (-e).toNat
  let d := one * Nat.pow 10 e.toNat
  let lower : Decimal := ⟨a / d, e⟩
  let upper : Decimal := ⟨a / d + 1, e⟩
  if lower.magnitude = m then
    if upper.magnitude = m && d ≤ 2 * (a % d) then some upper else some lower
  else if upper.magnitude = m then some upper
  else none

/-- A decimal found on a grid reads back to the value it was sought for. -/
theorem magnitude_of_onGrid? {m : Nat} {e : Int} {d : Decimal} (h : onGrid? m e = some d) :
    d.magnitude = m := by
  simp only [onGrid?] at h
  split at h
  · split at h
    · simp_all
    · simp_all
  · split at h
    · simp_all
    · simp at h

/-- The value of a magnitude, written out to its last digit. -/
def expansion (m : Nat) : Decimal := ⟨units m * Nat.pow 5 1074, -1074⟩

/-- The first decimal found on the grids below number `n`, from coarse to fine. -/
def shortestBelow (m : Nat) : Nat → Decimal
  | 0 => expansion m
  | n + 1 => (onGrid? m (n - 1073)).getD (shortestBelow m n)

/-- The number of a grid that is coarser than the value: `30103 / 100000` is just above the
logarithm of two. -/
def coarsestGrid (m : Nat) : Nat :=
  ((((units m).log2 + 1 : Int) - 1074) * 30103 / 100000 + 1075).toNat

/-- The decimal with the fewest digits that reads back to the magnitude `m`, zero being `0`. -/
def shortest (m : Nat) : Decimal :=
  if m = 0 then ⟨0, 0⟩ else shortestBelow m (coarsestGrid m)

end Formula.Decimal
