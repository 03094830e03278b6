import Formula.Proofs.NumeralGrammar

/-!
# Numerals that read back

The text of a finite double is a numeral without an exponent: digits, of which there are some in
front of the point if there is one, behind a minus if the sign is set. Read as a number, it gives
the double back that it was made from (`parse?_text`). A literal has no sign of its own. There the
numeral gives the double without its sign, and negating that gives the double (`eq_of_isFinite`).

The shortest decimal was only accepted because it reads back, except for the last one that is tried,
the exact value (`magnitude_expansion`). What is left to show is that writing out a decimal does not
change it. A decimal with an exponent of zero or more is written with zeros and read with the
exponent `0`, which is another decimal of the same value.
-/

namespace Formula

/-! ## Exact values -/

namespace Binary64

theorem scale_mul_binade_le (m : Nat) : scale m * binade ≤ m := by
  have hdiv := Nat.div_mul_le_self m binade
  have hle : scale m * binade ≤ m / binade * binade := Nat.mul_le_mul_right _ (Nat.sub_le _ _)
  exact Nat.le_trans hle hdiv

/-- A magnitude has no scale, or its significand has the leading bit. -/
theorem significand_cases (m : Nat) : m < binade ∧ scale m = 0 ∨
    binade ≤ m - scale m * binade ∧ m - scale m * binade < 2 * binade := by
  by_cases h : m < binade
  · exact .inl ⟨h, by rw [scale, Nat.div_eq_of_lt h]⟩
  · have hdiv := Nat.div_add_mod m binade
    have hmod := Nat.mod_lt m (show 0 < binade by decide)
    have hpos : 1 ≤ m / binade := (Nat.le_div_iff_mul_le (by decide)).mpr (by omega)
    have hsub : scale m * binade + binade = binade * (m / binade) := by
      rw [scale, ← Nat.succ_mul, Nat.succ_eq_add_one, Nat.sub_add_cancel hpos, Nat.mul_comm]
    omega

/-- The bits of a value above the lowest 53 are counted by the scale. -/
theorem log2_units {m : Nat} (hm : m ≠ 0) : (units m).log2 - 52 = scale m := by
  rcases significand_cases m with ⟨hlt, hscale⟩ | ⟨hlow, hhigh⟩
  · have hlog := log2_lt_of_lt_binade hm hlt
    rw [units, hscale, Nat.zero_mul, Nat.sub_zero, Nat.shiftLeft_zero]
    omega
  · rw [units, log2_shiftLeft hlow hhigh]
    omega

theorem units_ne_zero {m : Nat} (hm : m ≠ 0) : units m ≠ 0 := by
  rw [units, Nat.shiftLeft_eq]
  refine Nat.mul_ne_zero ?_ (Nat.ne_of_gt (Nat.two_pow_pos _))
  rcases significand_cases m with ⟨-, hscale⟩ | ⟨hlow, -⟩
  · rwa [hscale, Nat.zero_mul, Nat.sub_zero]
  · unfold binade at hlow ⊢
    omega

/-- **Rounding finds the magnitude of an exact value.** -/
theorem nearest_units {m d : Nat} (hm : m ≠ 0) (hm' : m ≤ infinity) (hd : 0 < d) :
    nearest (units m * d) d = m := by
  have hunits : units m * d = (m - scale m * binade) * (d <<< scale m) := by
    simp only [units, Nat.shiftLeft_eq]
    rw [Nat.mul_assoc, Nat.mul_comm (2 ^ scale m) d]
  have hpos : 0 < d <<< scale m := by
    rw [Nat.shiftLeft_eq]
    exact Nat.mul_pos hd (Nat.two_pow_pos _)
  simp only [nearest]
  rw [Nat.mul_div_cancel _ hd, log2_units hm, hunits, roundQuotient_mul_self hpos,
    Nat.add_sub_cancel' (scale_mul_binade_le m), Nat.min_eq_left hm']

end Binary64

namespace Decimal

open Binary64

theorem magnitude_eq_nearest {d : Decimal} (h : d.coefficient ≠ 0) (hsmall : d.exponent < 400)
    (hlarge : 3 * -d.exponent < (d.coefficient.log2 : Int) + 1100) :
    d.magnitude = nearest (d.coefficient * Nat.pow 10 d.exponent.toNat * one)
      (Nat.pow 10 (-d.exponent).toNat) := by
  rw [magnitude, if_neg h, if_neg (by omega), if_neg (by omega)]

/-- A multiple of `5 ^ k` has bits enough to be divided by `10 ^ k`. -/
theorem magnitude_mul_five_pow {n k : Nat} (hn : n ≠ 0) (hk : k < 1100) :
    (⟨n * Nat.pow 5 k, -k⟩ : Decimal).magnitude
      = nearest (n * (Nat.pow 5 k * one)) (Nat.pow 10 k) := by
  have hne : n * Nat.pow 5 k ≠ 0 := Nat.mul_ne_zero hn (Nat.ne_of_gt (Nat.pow_pos (by decide)))
  have hlog : 2 * k ≤ (n * Nat.pow 5 k).log2 := by
    rw [Nat.le_log2 hne, Nat.pow_mul]
    exact Nat.le_trans (Nat.pow_le_pow_left (by decide) k)
      (Nat.le_mul_of_pos_left _ (Nat.pos_of_ne_zero hn))
  have hzero : (-(k : Int)).toNat = 0 := by omega
  have hneg : (-(-(k : Int))).toNat = k := by omega
  rw [magnitude_eq_nearest hne (by dsimp only; omega) (by dsimp only; omega), hzero, hneg,
    ← Nat.mul_assoc]
  exact congrArg (fun c ↦ nearest (c * one) _) (Nat.mul_one _)

theorem five_pow_mul_shiftLeft (k : Nat) : Nat.pow 5 k * 1 <<< k = Nat.pow 10 k := by
  rw [Nat.one_shiftLeft]
  exact (Nat.mul_pow 5 2 k).symm

/-- **The exact value reads back.** -/
theorem magnitude_expansion {m : Nat} (hm : m ≠ 0) (hm' : m ≤ infinity) :
    (expansion m).magnitude = m := by
  unfold expansion
  -- no power of this size is to be formed
  generalize hk : 1074 = k
  have hexponent : (-1074 : Int) = -k := by omega
  have hone : one = 1 <<< k := by rw [← hk, one]
  rw [hexponent, magnitude_mul_five_pow (units_ne_zero hm) (by omega), hone, five_pow_mul_shiftLeft]
  exact nearest_units hm hm' (Nat.pow_pos (by decide))

theorem magnitude_shortestBelow {m : Nat} (hm : m ≠ 0) (hm' : m ≤ infinity) (n : Nat) :
    (shortestBelow m n).magnitude = m := by
  induction n with
  | zero => exact magnitude_expansion hm hm'
  | succ n ih =>
    rw [shortestBelow]
    cases hgrid : onGrid? m (n - 1073) with
    | none => exact ih
    | some d => exact magnitude_of_onGrid? hgrid

/-- **The shortest decimal reads back.** -/
theorem magnitude_shortest {m : Nat} (hm : m ≤ infinity) : (shortest m).magnitude = m := by
  unfold shortest
  split
  · next hzero => exact hzero.symm
  · next hne => exact magnitude_shortestBelow hne hm _

/-! ## Writing and reading back -/

/-- Zeros behind the digits are a power of ten. -/
theorem magnitude_mul_ten_pow {c n : Nat} (h : c ≠ 0 → n < 400) :
    (⟨c * Nat.pow 10 n, 0⟩ : Decimal).magnitude = (⟨c, n⟩ : Decimal).magnitude := by
  by_cases hc : c = 0
  · simp [magnitude, hc]
  · have hn := h hc
    have hne : c * Nat.pow 10 n ≠ 0 := Nat.mul_ne_zero hc (Nat.ne_of_gt (Nat.pow_pos (by decide)))
    have hneg : (-(n : Int)).toNat = 0 := by omega
    rw [magnitude_eq_nearest hne (by dsimp only; omega) (by dsimp only; omega),
      magnitude_eq_nearest hc (by dsimp only; omega) (by dsimp only; omega), Int.toNat_natCast,
      hneg]
    exact congrArg (fun k ↦ nearest (k * one) _) (Nat.mul_one _)

/-- A numeral behind its sign. -/
def signed (negative : Bool) (cs : List Char) : List Char := if negative then '-' :: cs else cs

/-- Numerals in positional notation, with the decimals that they are read as: digits, or digits with
a point among or behind them. -/
inductive Positional : List Char → Decimal → Prop
  | whole {digits : List Char} (hne : digits ≠ []) (hdigits : ∀ c ∈ digits, c.isDigit) :
    Positional digits ⟨ofDigits digits, 0⟩
  | point {digits fraction : List Char} (hne : digits ≠ []) (hdigits : ∀ c ∈ digits, c.isDigit)
    (hfraction : ∀ c ∈ fraction, c.isDigit) :
    Positional (digits ++ '.' :: fraction) ⟨ofDigits (digits ++ fraction), -fraction.length⟩

namespace Positional

variable {cs : List Char} {d : Decimal}

theorem exists_digit (h : Positional cs d) : ∃ c ds, cs = c :: ds ∧ c.isDigit := by
  cases h with
  | whole hne hdigits =>
    obtain ⟨c, ds, rfl⟩ := List.exists_cons_of_ne_nil hne
    exact ⟨c, ds, rfl, hdigits c List.mem_cons_self⟩
  | point hne hdigits =>
    obtain ⟨c, ds, rfl⟩ := List.exists_cons_of_ne_nil hne
    exact ⟨c, _, rfl, hdigits c List.mem_cons_self⟩

theorem isNumber (h : Positional cs d) : ∀ c ∈ cs, Piece.isNumber c := by
  have hdigit : ∀ c : Char, c.isDigit → Piece.isNumber c := fun c hc ↦ by simp [Piece.isNumber, hc]
  cases h with
  | whole _ hdigits => exact fun c hc ↦ hdigit c (hdigits c hc)
  | point _ hdigits hfraction =>
    intro c hc
    rcases List.mem_append.mp hc with hc | hc
    · exact hdigit c (hdigits c hc)
    · rcases List.mem_cons.mp hc with rfl | hc
      · rfl
      · exact hdigit c (hfraction c hc)

theorem splitSign (h : Positional cs d) (negative : Bool) :
    Decimal.splitSign (signed negative cs) = (negative, cs) := by
  cases negative with
  | true => rfl
  | false =>
    obtain ⟨c, ds, rfl, hc⟩ := h.exists_digit
    simp only [signed, Bool.false_eq_true, if_false]
    unfold Decimal.splitSign
    split
    · next heq =>
      obtain ⟨rfl, -⟩ := List.cons.inj heq
      exact absurd hc (by decide)
    · next heq =>
      obtain ⟨rfl, -⟩ := List.cons.inj heq
      exact absurd hc (by decide)
    · rfl

theorem read? (h : Positional cs d) (negative : Bool) :
    Decimal.read? (signed negative cs) = some (negative, d) := by
  have hsign := h.splitSign negative
  cases h with
  | whole hne hdigits =>
    have hempty : cs.isEmpty = false := by simpa using hne
    simp [Decimal.read?, hsign, List.takeWhile_eq_self_iff.mpr hdigits,
      List.dropWhile_eq_nil_iff.mpr hdigits, splitFraction, hempty, readExponent?]
  | @point digits fraction hne hdigits hfraction =>
    have hempty : digits.isEmpty = false := by simpa using hne
    have hpoint : ('.' :: fraction).takeWhile Char.isDigit = [] := rfl
    have hpoint' : ('.' :: fraction).dropWhile Char.isDigit = '.' :: fraction := rfl
    simp [Decimal.read?, hsign, List.takeWhile_append_of_pos hdigits, hpoint,
      List.dropWhile_append_of_pos hdigits, hpoint', splitFraction,
      List.takeWhile_eq_self_iff.mpr hfraction, List.dropWhile_eq_nil_iff.mpr hfraction, hempty,
      readExponent?]

theorem not_isBlank (h : Positional cs d) : ∀ c ∈ cs, ¬Text.isBlank c := fun c hc ↦
  not_isBlank_of_isNumber (h.isNumber c hc)

theorem trim (h : Positional cs d) (negative : Bool) :
    Text.trim (signed negative cs) = signed negative cs := by
  have hblank : ∀ c ∈ signed negative cs, ¬Text.isBlank c := by
    cases negative with
    | true => exact List.forall_mem_cons.mpr ⟨by decide, h.not_isBlank⟩
    | false => exact h.not_isBlank
  exact (Trimmed.of_forall hblank).trim_eq

end Positional

theorem isDigit_of_mem_toDigits {n : Nat} : ∀ c ∈ Nat.toDigits 10 n, c.isDigit :=
  fun _ ↦ Nat.isDigit_of_mem_toDigits (by decide) (by decide)

theorem isDigit_of_mem_zeros {n : Nat} : ∀ c ∈ List.replicate n '0', c.isDigit := by
  intro c hc
  obtain rfl := List.eq_of_mem_replicate hc
  rfl

/-- Zeros behind a numeral are a power of ten. -/
theorem ofDigits_toDigits_append (n k : Nat) :
    ofDigits (Nat.toDigits 10 n ++ List.replicate k '0') = n * Nat.pow 10 k := by
  calc ofDigits (Nat.toDigits 10 n ++ List.replicate k '0')
      = Nat.ofDigitChars 10 (Nat.toDigits 10 n ++ List.replicate k '0') 0 := rfl
    _ = n * Nat.pow 10 k := by
      rw [Nat.ofDigitChars_append, Nat.ofDigitChars_ten_toDigits, Nat.ofDigitChars_replicate_zero]
      exact Nat.mul_comm _ _

/-- Zeros before a numeral do not count. -/
theorem ofDigits_append_toDigits (n k : Nat) :
    ofDigits (List.replicate k '0' ++ Nat.toDigits 10 n) = n := by
  calc ofDigits (List.replicate k '0' ++ Nat.toDigits 10 n)
      = Nat.ofDigitChars 10 (List.replicate k '0' ++ Nat.toDigits 10 n) 0 := rfl
    _ = n := by
      rw [Nat.ofDigitChars_append, Nat.ofDigitChars_replicate_zero, Nat.mul_zero,
        Nat.ofDigitChars_ten_toDigits]

/-- With a point, a decimal reads back as it was. -/
theorem positional_text_of_neg (c : Nat) {n : Nat} (hn : 0 < n) :
    Positional (text ⟨c, -n⟩) ⟨c, -n⟩ := by
  have hplaces : (-(-(n : Int))).toNat = n := by omega
  simp only [text, if_neg (show ¬(0 : Int) ≤ -n by omega), hplaces]
  generalize hpadded : List.replicate (n + 1 - (Nat.toDigits 10 c).length) '0' ++ Nat.toDigits 10 c
    = padded
  have hdigits : ∀ x ∈ padded, x.isDigit := by
    rw [← hpadded]
    exact fun x hx ↦ (List.mem_append.mp hx).elim (isDigit_of_mem_zeros x)
      (isDigit_of_mem_toDigits x)
  have hlength : n + 1 ≤ padded.length := by
    rw [← hpadded, List.length_append, List.length_replicate]
    omega
  have hwhole : padded.take (padded.length - n) ++ padded.drop (padded.length - n) = padded :=
    List.take_append_drop _ _
  have hfraction : (padded.drop (padded.length - n)).length = n := by
    rw [List.length_drop]
    omega
  have hvalue : ofDigits padded = c := by rw [← hpadded, ofDigits_append_toDigits]
  have hne : padded.take (padded.length - n) ≠ [] := by
    refine List.ne_nil_of_length_pos ?_
    rw [List.length_take]
    omega
  have hpoint := Positional.point hne (fun x hx ↦ hdigits x (List.mem_of_mem_take hx))
    (fun x (hx : x ∈ padded.drop (padded.length - n)) ↦ hdigits x (List.mem_of_mem_drop hx))
  rwa [hwhole, hvalue, hfraction] at hpoint

theorem exponent_lt_of_magnitude_lt {d : Decimal} (h : d.magnitude < infinity)
    (hne : d.coefficient ≠ 0) : d.exponent < 400 := by
  rw [magnitude, if_neg hne] at h
  split at h
  · exact absurd h (Nat.lt_irrefl _)
  · omega

/-- **Writing a decimal out does not change its value.** -/
theorem positional_text {d : Decimal} (h : d.magnitude < infinity) :
    ∃ d', Positional d.text d' ∧ d'.magnitude = d.magnitude := by
  obtain ⟨c, e⟩ := d
  by_cases he : 0 ≤ e
  · obtain ⟨n, rfl⟩ := Int.eq_ofNat_of_zero_le he
    refine ⟨_, ?_, magnitude_mul_ten_pow (c := c) (n := n) fun hc ↦ ?_⟩
    · rw [text, if_pos he, ← ofDigits_toDigits_append]
      exact .whole (List.append_ne_nil_of_left_ne_nil Nat.toDigits_ne_nil _) fun x hx ↦
        (List.mem_append.mp hx).elim (isDigit_of_mem_toDigits x) (isDigit_of_mem_zeros x)
    · have hlt : (n : Int) < 400 := exponent_lt_of_magnitude_lt (d := ⟨c, n⟩) h hc
      omega
  · obtain ⟨n, rfl⟩ : ∃ n : Nat, e = -n := ⟨e.natAbs, by omega⟩
    exact ⟨_, positional_text_of_neg c (by omega), rfl⟩

end Decimal

/-! ## The text of a number -/

namespace Number

variable {x : Float}

/-- The numeral of a double, which is its text up to the sign. -/
def numeral (x : Float) : List Char := (Decimal.shortest (Binary64.magnitude x)).text

theorem toList_text (h : x.isFinite) :
    (text x).toList = Decimal.signed (Binary64.isNegative x) (numeral x) := by
  have hne := Nat.ne_of_lt (Binary64.isFinite_iff.mp h)
  rw [text, if_neg (Binary64.not_isNaN_of_isFinite h)]
  simp only [if_neg hne, Decimal.signed]
  split
  · exact String.toList_append.trans (congrArg ('-' :: ·) String.toList_ofList)
  · exact String.toList_ofList

theorem positional_numeral (h : x.isFinite) :
    ∃ d, Decimal.Positional (numeral x) d ∧ d.magnitude = Binary64.magnitude x := by
  have hlt := Binary64.isFinite_iff.mp h
  have hshortest := Decimal.magnitude_shortest (Nat.le_of_lt hlt)
  obtain ⟨d, hd, hvalue⟩ := Decimal.positional_text (hshortest.symm ▸ hlt)
  exact ⟨d, hd, hvalue.trans hshortest⟩

/-- **The text of a finite double reads back as the double.** -/
theorem parse?_text (h : x.isFinite) : parse? (text x) = some x := by
  obtain ⟨d, hd, hvalue⟩ := positional_numeral h
  have hx := Binary64.eq_ofMagnitude (Nat.le_of_lt (Binary64.isFinite_iff.mp h))
  rw [← hvalue] at hx
  rw [parse?_eq, toList_text h, hd.trim, hd.read?]
  exact congrArg some hx.symm

/-- **The numeral of a finite double is a literal for it, up to the sign.** -/
theorem ofLiteral_numeral (h : x.isFinite) :
    ofLiteral (String.ofList (numeral x)) = Binary64.ofMagnitude false (Binary64.magnitude x) := by
  obtain ⟨d, hd, hvalue⟩ := positional_numeral h
  have htrim := hd.trim false
  have hread := hd.read? false
  simp only [Decimal.signed, Bool.false_eq_true, if_false] at htrim hread
  rw [ofLiteral, parse?_eq, String.toList_ofList, htrim, hread]
  exact congrArg (Binary64.ofMagnitude false) hvalue

/-- **A finite double is what its numeral is read as, negated if its sign is set.** -/
theorem eq_of_isFinite (h : x.isFinite) :
    x = if Binary64.isNegative x then -ofLiteral (String.ofList (numeral x))
      else ofLiteral (String.ofList (numeral x)) := by
  have hlt := Binary64.isFinite_iff.mp h
  have hx := Binary64.eq_ofMagnitude (Nat.le_of_lt hlt)
  rw [ofLiteral_numeral h, Binary64.neg_ofMagnitude hlt]
  cases hneg : Binary64.isNegative x with
  | false => rwa [hneg] at hx
  | true => rwa [hneg] at hx

end Number

end Formula
