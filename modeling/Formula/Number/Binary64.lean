/-!
# Doubles as whole numbers

Every finite double is a whole multiple of `2 ^ -1074`, the smallest positive one, and the patterns
of the non-negative doubles, read as natural numbers, come in the order of their values. Both facts
turn questions about doubles into questions about `Nat`: the *magnitude* of a double is its pattern
without the sign, `units` is the value of a magnitude as a multiple of the smallest double, and
`nearest` leads back from an exact quotient to the magnitude that is closest to it.

Reading a numeral, printing one and the whole-number functions all go through these three, so there
is one place where anything is rounded.

## Why one formula covers both kinds of double

Doubles below `2 ^ -1022` share the spacing of the next binade, so `scale` is `0` on both, and the
significand of a magnitude `m` is `m - scale m * binade` whether or not its leading bit is written
out. A significand that rounds up to twice a binade runs over into the next scale by the same sum.

Powers are written as shifts, as literals, or as `Nat.pow`, never with `^`: a statement about them
then means the same whatever instances a later module brings into scope.
-/

namespace Formula.Binary64

/-! ## Patterns -/

/-- The pattern of the sign alone, `2 ^ 63`. -/
def signBit : Nat := 0x8000000000000000

/-- The number of doubles between one power of two and the next, `2 ^ 52`. -/
def binade : Nat := 0x10000000000000

/-- The magnitude of the infinities. Larger patterns stand for no number. -/
def infinity : Nat := 0x7ff0000000000000

/-- The pattern of a double without its sign. -/
def magnitude (x : Float) : Nat := x.toBits.toNat % signBit

/-- Whether the sign of a double is set, as it is for `-0.0`. -/
def isNegative (x : Float) : Bool := signBit ≤ x.toBits.toNat

/-- A pattern whose fields are a sign and a magnitude up to infinity's. -/
def pattern (negative : Bool) (m : Nat) : UInt64 :=
  UInt64.ofNat (min m infinity + if negative then signBit else 0)

theorem toNat_pattern (negative : Bool) (m : Nat) :
    (pattern negative m).toNat = min m infinity + if negative then signBit else 0 := by
  rw [pattern, UInt64.toNat_ofNat']
  apply Nat.mod_eq_of_lt
  unfold infinity signBit
  split <;> omega

/-- Such a pattern never falls among those that stand for no number. -/
theorem valid_pattern (negative : Bool) (m : Nat) :
    Float.Model.Format.binary64.Valid (pattern negative m).toBitVec := by
  constructor
  intro hexp hfrac
  refine absurd ?_ hfrac
  have hbits : (pattern negative m).toBitVec.toNat
      = min m infinity + if negative then signBit else 0 := by
    rw [UInt64.toNat_toBitVec, toNat_pattern]
  generalize (pattern negative m).toBitVec = b at *
  have hfield := congrArg BitVec.toNat hexp
  apply BitVec.eq_of_toNat_eq
  simp only [Float.Model.UnpackedFloat.unpackExponent, Float.Model.UnpackedFloat.unpackMantissa,
    BitVec.toNat_cast, BitVec.extractLsb_toNat, hbits, Nat.shiftRight_eq_div_pow, signBit]
    at hfield ⊢
  have : min m infinity ≤ 0x7ff0000000000000 := Nat.min_le_right _ _
  generalize min m infinity = k at *
  simp at hfield ⊢
  cases negative <;> (simp at hfield ⊢; omega)

/-- The double with the given sign and magnitude, infinite from `infinity` on. -/
def ofMagnitude (negative : Bool) (m : Nat) : Float :=
  Float.ofModel ⟨pattern negative m, valid_pattern negative m⟩

@[simp] theorem toBits_ofMagnitude (negative : Bool) (m : Nat) :
    (ofMagnitude negative m).toBits = pattern negative m := rfl

@[simp] theorem magnitude_ofMagnitude (negative : Bool) (m : Nat) :
    magnitude (ofMagnitude negative m) = min m infinity := by
  rw [magnitude, toBits_ofMagnitude, toNat_pattern]
  unfold infinity signBit
  split <;> omega

@[simp] theorem isNegative_ofMagnitude (negative : Bool) (m : Nat) :
    isNegative (ofMagnitude negative m) = negative := by
  rw [isNegative, toBits_ofMagnitude, toNat_pattern]
  have hm : min m infinity < signBit := by unfold infinity signBit; omega
  cases negative
  · exact decide_eq_false (Nat.not_le.mpr hm)
  · exact decide_eq_true (Nat.le_add_left _ _)

/-- The one double that is no number. -/
def nan : Float := Float.ofBits 0x7ff8000000000000

/-! ## Values of magnitudes -/

/-- The spacing around the magnitude `m` is `2 ^ scale m` units. -/
def scale (m : Nat) : Nat := m / binade - 1

/-- The value of a magnitude, counted in smallest positive doubles. -/
def units (m : Nat) : Nat := (m - scale m * binade) <<< scale m

/-- The number `1`, counted in units. -/
def one : Nat := 1 <<< 1074

/-! ## Rounding -/

/-- The whole number nearest to `a / d`; a half goes to the even neighbour. -/
def roundQuotient (a d : Nat) : Nat :=
  if 2 * (a % d) < d || (2 * (a % d) == d && a / d % 2 == 0) then a / d else a / d + 1

/-- A whole number is its own rounding. -/
@[simp] theorem roundQuotient_mul_self {d : Nat} (hd : 0 < d) (q : Nat) :
    roundQuotient (q * d) d = q := by
  simp [roundQuotient, Nat.mul_div_cancel _ hd, hd]

/-- The magnitude nearest to `a / d` units, of two equally near ones the even one. -/
def nearest (a d : Nat) : Nat :=
  let s := (a / d).log2 - 52
  min (s * binade + roundQuotient a (d <<< s)) infinity

end Formula.Binary64
