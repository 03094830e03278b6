import Formula.Number.Shortest

/-!
# The fields of a double

The library's model of doubles takes a pattern apart into a sign, an exponent and a mantissa, works
on these and packs the result. Its negation does so too. For a finite double it comes to setting the
sign bit of the pattern (`neg_ofMagnitude`), because what is packed are the fields as they were
(`pack_neg_unpack`).

The exponent field also says which doubles are finite, and with the mantissa, which of the others
are infinite. In terms of magnitudes that is being below, at or beyond `infinity` (`isFinite_iff`,
`isNaN_iff`). Only one double of this model is not a number (`eq_nan`), and negation leaves it and
every magnitude as they are.
-/

namespace Formula.Binary64

open Float.Model Float.Model.UnpackedFloat

/-! ## Fields -/

/-- Patterns, as fields are taken from them. -/
abbrev Pattern := BitVec (Format.numBits Format.binary64)

theorem toNat_unpackExponent (b : Pattern) :
    (unpackExponent b).toNat = b.toNat / 0x10000000000000 % 0x800 := by
  simp [unpackExponent, BitVec.extractLsb_toNat, Nat.shiftRight_eq_div_pow]

theorem toNat_unpackMantissa (b : Pattern) :
    (unpackMantissa b).toNat = b.toNat % 0x10000000000000 := by
  simp [unpackMantissa, BitVec.extractLsb_toNat]

theorem toNat_unpackSign (b : Pattern) :
    (unpackSign b).toNat = b.toNat / 0x8000000000000000 % 2 := by
  unfold unpackSign
  rw [BitVec.toNat_cast, BitVec.extractLsb_toNat, Nat.shiftRight_eq_div_pow]
  rfl

theorem toNat_packComponents (s : Sign) (e : BitVec 11) (m : BitVec 52) :
    (packComponents Format.binary64 s e m).toNat
      = s.toBitVec.toNat * signBit + e.toNat * binade + m.toNat := by
  rw [packComponents, BitVec.toNat_append, BitVec.toNat_append,
    ← Nat.shiftLeft_add_eq_or_of_lt m.isLt, ← Nat.shiftLeft_add_eq_or_of_lt e.isLt]
  simp only [Nat.shiftLeft_eq, signBit, binade]
  omega

/-! ## Packing -/

/-- A significand with its leading bit has 53 bits. -/
theorem log2_shiftLeft {m : Nat} (h : binade ≤ m) (h' : m < 2 * binade) (s : Nat) :
    (m <<< s).log2 = 52 + s := by
  have hpos := Nat.two_pow_pos s
  have hlow := Nat.mul_le_mul_right (2 ^ s) h
  have hhigh := Nat.mul_lt_mul_of_pos_right h' hpos
  unfold binade at h hlow hhigh
  have hne : m * 2 ^ s ≠ 0 := Nat.ne_of_gt (Nat.mul_pos (by omega) hpos)
  rw [Nat.shiftLeft_eq, Nat.log2_eq_iff hne, Nat.pow_succ, Nat.pow_add]
  constructor <;> omega

theorem log2_lt_of_lt_binade {m : Nat} (hm : m ≠ 0) (h : m < binade) : m.log2 < 52 :=
  (Nat.log2_lt hm).mpr h

theorem pack_subnormal (s : Sign) (m : BitVec 52) (hm : 0 < m.toNat) :
    UnpackedFloat.pack Format.binary64 (.finite s m.toNat (-1074) hm)
      = packComponents Format.binary64 s 0#11 m := by
  have hlog : ¬m.toNat.log2 + 1 = Format.binary64.mantissaBits := by
    have hlt := log2_lt_of_lt_binade (Nat.ne_of_gt hm) m.isLt
    show ¬m.toNat.log2 + 1 = 53
    omega
  unfold UnpackedFloat.pack
  rw [if_neg (by decide), if_neg hlog, BitVec.ofNat_toNat, BitVec.setWidth_eq]

theorem pack_normal (s : Sign) (e : BitVec 11) (m : BitVec 52) (he : e.toNat < 2047)
    (hm : 0 < (1#1 ++ m).toNat) :
    UnpackedFloat.pack Format.binary64 (.finite s (1#1 ++ m).toNat (e.toNat - 1075) hm)
      = packComponents Format.binary64 s e m := by
  have hmant := m.isLt
  have hvalue : (1#1 ++ m).toNat = binade + m.toNat := by
    rw [BitVec.toNat_append, ← Nat.shiftLeft_add_eq_or_of_lt m.isLt]
    rfl
  have hlog : (1#1 ++ m).toNat.log2 + 1 = Format.binary64.mantissaBits := by
    have hlog := log2_shiftLeft (Nat.le_add_right binade m.toNat) (by unfold binade; omega) 0
    rw [Nat.shiftLeft_zero] at hlog
    rw [hvalue, hlog]
    rfl
  have hbiased : ((e.toNat : Int) - 1075 + Format.binary64.exponentBias
      + Format.binary64.mantissaBitsWithoutImplicit).toNat = e.toNat := by
    show ((e.toNat : Int) - 1075 + (1023 : Nat) + (52 : Nat)).toNat = e.toNat
    omega
  have hfits : ¬2 ^ Format.binary64.exponentBits ≤ e.toNat + 1 := by
    show ¬2 ^ 11 ≤ e.toNat + 1
    omega
  unfold UnpackedFloat.pack
  rw [hbiased, if_neg hfits, if_pos hlog, BitVec.ofNat_toNat, BitVec.setWidth_eq, hvalue]
  congr 1
  apply BitVec.eq_of_toNat_eq
  rw [BitVec.toNat_ofNat]
  show (0x10000000000000 + m.toNat) % 0x10000000000000 = m.toNat
  omega

/-- What is unpacked, negated and packed again has its other fields as before. -/
theorem pack_neg_unpack (b : Pattern) (h : (unpackExponent b).toNat < 2047) :
    UnpackedFloat.pack Format.binary64 (UnpackedFloat.unpack Format.binary64 b).neg
      = packComponents Format.binary64 (-(Sign.ofBitVec (unpackSign b))) (unpackExponent b)
          (unpackMantissa b) := by
  have hne : unpackExponent b ≠ -1#_ := fun heq ↦ by
    rw [heq] at h
    exact absurd h (by decide)
  unfold UnpackedFloat.unpack
  rw [if_neg hne]
  by_cases hexp : unpackExponent b = 0#_
  · rw [if_pos hexp, hexp]
    by_cases hmant : unpackMantissa b = 0#_
    · rw [dif_pos hmant, hmant]
      rfl
    · rw [dif_neg hmant]
      exact pack_subnormal _ _ _
  · rw [if_neg hexp]
    exact pack_normal _ _ _ h _

theorem toNat_pack_neg_unpack {b : Pattern} (h : b.toNat < infinity) :
    (UnpackedFloat.pack Format.binary64 (UnpackedFloat.unpack Format.binary64 b).neg).toNat
      = b.toNat + signBit := by
  have hexp := toNat_unpackExponent b
  have hmant := toNat_unpackMantissa b
  unfold infinity at h
  have hsign : unpackSign b = 0#1 := by
    apply BitVec.eq_of_toNat_eq
    rw [toNat_unpackSign]
    show b.toNat / 0x8000000000000000 % 2 = 0
    omega
  rw [pack_neg_unpack b (by omega), toNat_packComponents, hsign, hexp, hmant]
  show 1 * signBit + _ + _ = _
  unfold signBit binade
  omega

/-- A full exponent field marks what is not finite. -/
theorem unpackExponent_eq_iff {b : Pattern} :
    unpackExponent b = -1#_ ↔ (unpackExponent b).toNat = 2047 :=
  ⟨fun h ↦ by rw [h]; rfl, fun h ↦ BitVec.eq_of_toNat_eq (by rw [h]; rfl)⟩

theorem isFinite_unpack_iff {b : Pattern} :
    (UnpackedFloat.unpack Format.binary64 b).isFinite ↔ (unpackExponent b).toNat ≠ 2047 := by
  rw [ne_eq, ← unpackExponent_eq_iff]
  unfold UnpackedFloat.unpack
  by_cases hfull : unpackExponent b = -1#_
  · rw [if_pos hfull]
    refine iff_of_false (fun h ↦ Bool.false_ne_true ?_) (absurd hfull)
    by_cases hmant : unpackMantissa b = 0#_
    · rwa [if_pos hmant] at h
    · rwa [if_neg hmant] at h
  · rw [if_neg hfull]
    refine iff_of_true ?_ hfull
    by_cases hexp : unpackExponent b = 0#_
    · rw [if_pos hexp]
      by_cases hmant : unpackMantissa b = 0#_
      · rw [dif_pos hmant]
        rfl
      · rw [dif_neg hmant]
        rfl
    · rw [if_neg hexp]
      rfl

theorem isNaN_unpack_iff {b : Pattern} : (UnpackedFloat.unpack Format.binary64 b).isNaN ↔
    (unpackExponent b).toNat = 2047 ∧ (unpackMantissa b).toNat ≠ 0 := by
  by_cases hexp : (unpackExponent b).toNat = 2047
  · have hzero : (unpackMantissa b).toNat = 0 ↔ unpackMantissa b = 0#_ :=
      ⟨fun h ↦ BitVec.eq_of_toNat_eq h, fun h ↦ by rw [h]; rfl⟩
    unfold UnpackedFloat.unpack
    rw [if_pos (unpackExponent_eq_iff.mpr hexp), ne_eq, hzero]
    by_cases hmant : unpackMantissa b = 0#_
    · rw [if_pos hmant]
      exact iff_of_false Bool.false_ne_true fun h ↦ h.2 hmant
    · rw [if_neg hmant]
      exact iff_of_true rfl ⟨hexp, hmant⟩
  · have hfinite := isFinite_unpack_iff.mpr hexp
    refine iff_of_false (fun h ↦ ?_) fun h ↦ hexp h.1
    generalize UnpackedFloat.unpack Format.binary64 b = u at h hfinite
    cases u with
    | notANumber => exact Bool.false_ne_true hfinite
    | infinity | zero | finite => exact Bool.false_ne_true h

/-! ## Doubles -/

theorem eq_of_toBits_eq {x y : Float} (h : x.toBits = y.toBits) : x = y := by
  obtain ⟨⟨bits, hvalid⟩⟩ := x
  obtain ⟨⟨bits', hvalid'⟩⟩ := y
  obtain rfl : bits = bits' := h
  rfl

/-- The magnitudes below that of the infinities are those of the finite doubles. -/
theorem isFinite_iff {x : Float} : x.isFinite ↔ magnitude x < infinity := by
  change (UnpackedFloat.unpack Format.binary64 x.toBits.toBitVec).isFinite ↔ _
  rw [isFinite_unpack_iff, toNat_unpackExponent, UInt64.toNat_toBitVec]
  unfold magnitude signBit infinity
  omega

/-- The magnitudes beyond it stand for no number. -/
theorem isNaN_iff {x : Float} : x.isNaN ↔ infinity < magnitude x := by
  change (UnpackedFloat.unpack Format.binary64 x.toBits.toBitVec).isNaN ↔ _
  rw [isNaN_unpack_iff, toNat_unpackExponent, toNat_unpackMantissa, UInt64.toNat_toBitVec]
  unfold magnitude signBit infinity
  omega

theorem not_isNaN_of_isFinite {x : Float} (h : x.isFinite) : ¬x.isNaN := by
  rw [isNaN_iff, Nat.not_lt]
  exact Nat.le_of_lt (isFinite_iff.mp h)

/-- A double is its sign and its magnitude. -/
theorem eq_ofMagnitude {x : Float} (h : magnitude x ≤ infinity) :
    x = ofMagnitude (isNegative x) (magnitude x) := by
  refine eq_of_toBits_eq (UInt64.toNat_inj.mp ?_)
  rw [toBits_ofMagnitude, toNat_pattern, Nat.min_eq_left h, magnitude, isNegative]
  have hlt := x.toBits.toNat_lt
  unfold signBit
  by_cases hneg : 0x8000000000000000 ≤ x.toBits.toNat
  · simp only [hneg, decide_true, if_true]
    omega
  · simp only [hneg, decide_false, Bool.false_eq_true, if_false]
    omega

/-- **Negation sets the sign.** -/
theorem neg_ofMagnitude {m : Nat} (h : m < infinity) :
    -ofMagnitude false m = ofMagnitude true m := by
  have hbits : (pattern false m).toBitVec.toNat = m := by
    rw [UInt64.toNat_toBitVec, toNat_pattern, Nat.min_eq_left (Nat.le_of_lt h)]
    rfl
  refine eq_of_toBits_eq (UInt64.toNat_inj.mp ?_)
  rw [toBits_ofMagnitude, toNat_pattern, Nat.min_eq_left (Nat.le_of_lt h)]
  have hneg := toNat_pack_neg_unpack (b := (pattern false m).toBitVec) (by rwa [hbits])
  rw [hbits] at hneg
  exact hneg

/-- There is one double only that is not a number. -/
theorem eq_nan {x : Float} (h : x.isNaN) : x = nan := by
  obtain ⟨hexp, hmant⟩ := isNaN_unpack_iff.mp
    (show (UnpackedFloat.unpack Format.binary64 x.toBits.toBitVec).isNaN from h)
  have hbits := x.toModel.valid.eq_packedNaN (unpackExponent_eq_iff.mpr hexp) fun hzero ↦
    hmant (congrArg BitVec.toNat hzero)
  exact eq_of_toBits_eq (UInt64.toBitVec_inj.mp hbits)

/-- A double that is not finite is `nan` or an infinity. -/
theorem eq_of_not_isFinite {x : Float} (h : ¬x.isFinite) :
    x = nan ∨ ∃ negative, x = ofMagnitude negative infinity := by
  by_cases hnan : x.isNaN
  · exact .inl (eq_nan hnan)
  · rw [isFinite_iff] at h
    rw [isNaN_iff] at hnan
    have hinfinity : magnitude x = infinity := by omega
    have hx := eq_ofMagnitude (Nat.le_of_eq hinfinity)
    rw [hinfinity] at hx
    exact .inr ⟨isNegative x, hx⟩

/-- Negation leaves the magnitude as it is. -/
theorem magnitude_neg {x : Float} (h : x.isFinite) : magnitude (-x) = magnitude x := by
  have hexp := toNat_unpackExponent x.toBits.toBitVec
  have hmant := toNat_unpackMantissa x.toBits.toBitVec
  have hfinite : (@unpackExponent Format.binary64 x.toBits.toBitVec).toNat ≠ 2047 :=
    isFinite_unpack_iff.mp h
  rw [UInt64.toNat_toBitVec] at hexp hmant
  have hbits : (-x).toBits.toNat = _ :=
    (congrArg BitVec.toNat (pack_neg_unpack x.toBits.toBitVec (by omega))).trans
      (toNat_packComponents _ _ _)
  rw [magnitude, magnitude, hbits, hexp, hmant]
  unfold signBit binade
  omega

theorem isNaN_neg_iff {x : Float} : (-x).isNaN ↔ x.isNaN := by
  by_cases hfinite : x.isFinite
  · rw [isNaN_iff, isNaN_iff, magnitude_neg hfinite]
  · rcases eq_of_not_isFinite hfinite with rfl | ⟨negative, rfl⟩
    · decide
    · cases negative <;> decide

end Formula.Binary64
