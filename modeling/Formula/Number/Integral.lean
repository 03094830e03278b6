import Formula.Number.Binary64

/-!
# Remainders and whole numbers

The remainder of a truncated division and the three ways to round to a whole number, each exact:
the result of every one of them is a double, so `nearest` only has to find its pattern. The sign of
the argument is kept, which gives `-0.0` where a negative number rounds to nothing.
-/

namespace Formula.Binary64

/-- Applies a function of magnitudes counted in units to a finite double; infinities and `nan` are
their own results. -/
def mapUnits (f : Nat → Nat) (x : Float) : Float :=
  if x.isFinite then ofMagnitude (isNegative x) (nearest (f (units (magnitude x))) 1) else x

/-- The whole part of a magnitude. -/
def wholeUnits (u : Nat) : Nat := u / one * one

/-- The largest whole number that is not above `x`. -/
def floor (x : Float) : Float :=
  mapUnits (fun u ↦ wholeUnits (if isNegative x then u + (one - 1) else u)) x

/-- The smallest whole number that is not below `x`. -/
def ceiling (x : Float) : Float :=
  mapUnits (fun u ↦ wholeUnits (if isNegative x then u else u + (one - 1))) x

/-- The whole number nearest to `x`; a half goes away from zero. -/
def round (x : Float) : Float := mapUnits (fun u ↦ wholeUnits (u + one / 2)) x

/-- What is left of `x` after taking away `y` as often as it fits, with the sign of `x`. Nothing is
left to speak of when `x` is infinite or `y` is zero; an infinite `y` fits no time at all. -/
def remainder (x y : Float) : Float :=
  if !x.isFinite || y.isNaN || magnitude y == 0 then nan
  else if y.isInf then x
  else mapUnits (· % units (magnitude y)) x

/-- The smaller of two numbers; `nan` yields to the other. -/
def lesser (x y : Float) : Float :=
  if x.isNaN then y else if y.isNaN || x ≤ y then x else y

/-- The larger of two numbers; `nan` yields to the other. -/
def greater (x y : Float) : Float :=
  if x.isNaN then y else if y.isNaN || y ≤ x then x else y

end Formula.Binary64
