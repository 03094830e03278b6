import Formula.Proofs.Doubles
import Formula.Proofs.Joining
import Mathlib.Data.List.TakeWhile

/-!
# Which texts are numerals

A numeral is a sign or none, digits with at most one point and at least one digit beside it, and an
exponent or none (`Decimal.Numeral`). The reader takes a numeral apart from left to right: each of
its steps takes as many characters as it can, and what it leaves never begins with a character that
the step could have taken. So there is one way only to cut a text into the three parts, and the
reader finds it if there is one (`Decimal.isSome_read?_iff`).

The general reader of doubles takes words as well. A text of a number is filtered by its characters
before, and the filter does just what it is there for: all numerals pass, and no word does, for want
of its first letter. So filter and reader together accept the grammar (`Number.parse?_eq`).

A literal is made of digits and points. It has no place for a sign or an exponent, and what is left
of the grammar is a count: a digit somewhere, and no second point (`Decimal.numeral_iff_count`).
-/

namespace Formula

namespace Decimal

variable {cs rest digits sign mantissa exponent : List Char}

/-! ## The grammar -/

/-- A single sign, or none. -/
inductive Sign : List Char → Prop
  | none : Sign []
  | plus : Sign ['+']
  | minus : Sign ['-']

/-- Digits, with a point behind, among or in front of them, but no point alone. -/
inductive Mantissa : List Char → Prop
  | whole {digits : List Char} (hne : digits ≠ []) (hdigits : ∀ c ∈ digits, c.isDigit) :
    Mantissa digits
  | point {digits fraction : List Char} (hne : digits ≠ []) (hdigits : ∀ c ∈ digits, c.isDigit)
    (hfraction : ∀ c ∈ fraction, c.isDigit) : Mantissa (digits ++ '.' :: fraction)
  | fraction {fraction : List Char} (hne : fraction ≠ []) (hfraction : ∀ c ∈ fraction, c.isDigit) :
    Mantissa ('.' :: fraction)

/-- The mark of an exponent, a sign or none and digits, or no exponent at all. -/
inductive Exponent : List Char → Prop
  | none : Exponent []
  | power {mark : Char} {sign digits : List Char} (hmark : mark = 'e' ∨ mark = 'E')
    (hsign : Sign sign) (hne : digits ≠ []) (hdigits : ∀ c ∈ digits, c.isDigit) :
    Exponent (mark :: (sign ++ digits))

/-- **The grammar of numerals.** -/
def Numeral (cs : List Char) : Prop :=
  ∃ sign mantissa exponent, Sign sign ∧ Mantissa mantissa ∧ Exponent exponent ∧
    cs = sign ++ (mantissa ++ exponent)

/-! ## Signs -/

theorem exists_sign (cs : List Char) : ∃ sign, Sign sign ∧ sign ++ (splitSign cs).2 = cs := by
  unfold splitSign
  split
  · exact ⟨_, .minus, rfl⟩
  · exact ⟨_, .plus, rfl⟩
  · exact ⟨_, .none, rfl⟩

/-- A sign is split off whole if no second one follows. -/
theorem Sign.splitSign (h : Sign sign) (hrest : ∀ c ∈ rest.head?, c ≠ '+' ∧ c ≠ '-') :
    (splitSign (sign ++ rest)).2 = rest := by
  cases h with
  | plus | minus => rfl
  | none =>
    rw [List.nil_append]
    unfold Decimal.splitSign
    split
    · exact absurd rfl (hrest '-' rfl).2
    · exact absurd rfl (hrest '+' rfl).1
    · rfl

theorem ne_sign_of_isDigit {c : Char} (h : c.isDigit) : c ≠ '+' ∧ c ≠ '-' := by
  constructor <;> (rintro rfl; exact absurd h (by decide))

theorem head?_append_of_digits (hne : digits ≠ []) (hdigits : ∀ c ∈ digits, c.isDigit) :
    ∀ c ∈ (digits ++ rest).head?, c.isDigit := by
  intro c hc
  rw [List.head?_append_of_ne_nil _ hne] at hc
  exact hdigits c (List.mem_of_mem_head? hc)

/-! ## Exponents -/

theorem isSome_readExponent?_cons {mark : Char} : (readExponent? (mark :: cs)).isSome ↔
    (mark = 'e' ∨ mark = 'E') ∧ (splitSign cs).2 ≠ [] ∧ ∀ c ∈ (splitSign cs).2, c.isDigit := by
  have hmark : (mark == 'e' || mark == 'E') = true ↔ mark = 'e' ∨ mark = 'E' := by simp
  have hdigits : ¬((splitSign cs).2.isEmpty || !(splitSign cs).2.all Char.isDigit) = true ↔
      (splitSign cs).2 ≠ [] ∧ ∀ c ∈ (splitSign cs).2, c.isDigit := by simp
  rw [← hmark, ← hdigits]
  simp only [readExponent?]
  split
  · next h =>
    split
    · next h' => simp [h']
    · next h' => split <;> simp [h, h']
  · next h => simp [h]

theorem isSome_readExponent?_iff : (readExponent? cs).isSome ↔ Exponent cs := by
  constructor
  · intro h
    cases cs with
    | nil => exact .none
    | cons mark cs =>
      obtain ⟨hmark, hne, hdigits⟩ := isSome_readExponent?_cons.mp h
      obtain ⟨sign, hsign, hcs⟩ := exists_sign cs
      rw [← hcs]
      exact .power hmark hsign hne hdigits
  · intro h
    cases h with
    | none => rfl
    | power hmark hsign hne hdigits =>
      have hsplit := hsign.splitSign fun c hc ↦
        ne_sign_of_isDigit (hdigits c (List.mem_of_mem_head? hc))
      rw [isSome_readExponent?_cons, hsplit]
      exact ⟨hmark, hne, hdigits⟩

/-- What follows the mantissa is not of its kind. -/
theorem Exponent.head? (h : Exponent exponent) :
    ∀ c ∈ exponent.head?, ¬c.isDigit ∧ c ≠ '.' := by
  rintro c hc
  cases h with
  | none => exact absurd hc (by simp)
  | power hmark =>
    obtain rfl := Option.some.inj hc
    rcases hmark with rfl | rfl <;> decide

/-! ## Mantissas -/

/-- The digits in front of the point, those behind it, and what is left of a text. -/
def splitMantissa (cs : List Char) : List Char × List Char × List Char :=
  (cs.takeWhile Char.isDigit, splitFraction (cs.dropWhile Char.isDigit))

theorem splitFraction_of_head? (h : ∀ c ∈ cs.head?, c ≠ '.') : splitFraction cs = ([], cs) := by
  unfold splitFraction
  split
  · exact absurd rfl (h '.' rfl)
  · rfl

/-- A point goes with the digits behind it. -/
theorem splitFraction_cases (cs : List Char) : splitFraction cs = ([], cs) ∨
    ∃ fraction rest, splitFraction cs = (fraction, rest) ∧ (∀ c ∈ fraction, c.isDigit) ∧
      cs = '.' :: (fraction ++ rest) := by
  unfold splitFraction
  split
  · exact .inr ⟨_, _, rfl, fun _ hc ↦ List.mem_takeWhile_imp hc,
      congrArg ('.' :: ·) List.takeWhile_append_dropWhile.symm⟩
  · exact .inl rfl

theorem exists_mantissa (cs : List Char)
    (h : (splitMantissa cs).1 ≠ [] ∨ (splitMantissa cs).2.1 ≠ []) :
    ∃ mantissa, Mantissa mantissa ∧ mantissa ++ (splitMantissa cs).2.2 = cs := by
  have hdigits : ∀ c ∈ cs.takeWhile Char.isDigit, c.isDigit := fun _ hc ↦ List.mem_takeWhile_imp hc
  have hcs : cs.takeWhile Char.isDigit ++ cs.dropWhile Char.isDigit = cs :=
    List.takeWhile_append_dropWhile
  simp only [splitMantissa] at h ⊢
  rcases splitFraction_cases (cs.dropWhile Char.isDigit) with
    hsplit | ⟨fraction, rest, hsplit, hfraction, hrest⟩
  · rw [hsplit] at h ⊢
    exact ⟨_, .whole (h.resolve_right (absurd rfl)) hdigits, hcs⟩
  · rw [hsplit] at h ⊢
    rw [hrest] at hcs
    -- without digits in front of the point there are some behind it
    by_cases hne : cs.takeWhile Char.isDigit = []
    · rw [hne] at hcs
      exact ⟨_, .fraction (h.resolve_left (absurd hne)) hfraction, hcs⟩
    · exact ⟨_, .point hne hdigits hfraction, by rw [List.append_assoc, List.cons_append, hcs]⟩

/-- A mantissa is split off whole if neither a digit nor a point follows. -/
theorem Mantissa.splitMantissa (h : Mantissa mantissa)
    (hrest : ∀ c ∈ rest.head?, ¬c.isDigit ∧ c ≠ '.') :
    ((splitMantissa (mantissa ++ rest)).1 ≠ [] ∨ (splitMantissa (mantissa ++ rest)).2.1 ≠ []) ∧
      (splitMantissa (mantissa ++ rest)).2.2 = rest := by
  have hstop : ∀ c ∈ rest.head?, ¬c.isDigit := fun c hc ↦ (hrest c hc).1
  have hpoint (cs : List Char) : ∀ c ∈ ('.' :: cs).head?, ¬c.isDigit := fun _ hc ↦
    Option.some.inj hc ▸ Bool.false_ne_true
  cases h with
  | whole hne hdigits =>
    obtain ⟨htake, hdrop⟩ := Text.takeWhile_dropWhile_eq hdigits hstop
    have hsplit := splitFraction_of_head? fun c hc ↦ (hrest c hc).2
    simp only [Decimal.splitMantissa, htake, hdrop, hsplit]
    exact ⟨.inl hne, trivial⟩
  | @point digits fraction hne hdigits hfraction =>
    rw [List.append_assoc, List.cons_append]
    obtain ⟨htake, hdrop⟩ := Text.takeWhile_dropWhile_eq hdigits (hpoint (fraction ++ rest))
    obtain ⟨-, hdrop'⟩ := Text.takeWhile_dropWhile_eq hfraction hstop
    simp only [Decimal.splitMantissa, htake, hdrop, splitFraction, hdrop']
    exact ⟨.inl hne, trivial⟩
  | @fraction fraction hne hfraction =>
    obtain ⟨htake, hdrop⟩ := Text.takeWhile_dropWhile_eq hfraction hstop
    have hdrop' : ('.' :: (fraction ++ rest)).dropWhile Char.isDigit = '.' :: (fraction ++ rest) :=
      rfl
    simp only [Decimal.splitMantissa, List.cons_append, hdrop', splitFraction, htake, hdrop]
    exact ⟨.inr hne, trivial⟩

/-- A mantissa is no sign. -/
theorem Mantissa.head? (h : Mantissa mantissa) :
    ∀ c ∈ (mantissa ++ rest).head?, c ≠ '+' ∧ c ≠ '-' := by
  cases h with
  | whole hne hdigits =>
    exact fun c hc ↦ ne_sign_of_isDigit (head?_append_of_digits hne hdigits c hc)
  | point hne hdigits =>
    rw [List.append_assoc]
    exact fun c hc ↦ ne_sign_of_isDigit (head?_append_of_digits hne hdigits c hc)
  | fraction =>
    intro c hc
    obtain rfl := Option.some.inj hc
    decide

/-! ## The reader -/

theorem isSome_read?_eq : (read? cs).isSome ↔
    ((splitMantissa (splitSign cs).2).1 ≠ [] ∨ (splitMantissa (splitSign cs).2).2.1 ≠ []) ∧
      Exponent (splitMantissa (splitSign cs).2).2.2 := by
  simp only [read?, splitMantissa, ← isSome_readExponent?_iff]
  split
  · next h => simp_all
  · next h =>
    rw [Option.isSome_map]
    simp_all [imp_iff_not_or]

/-- **The reader accepts the grammar.** -/
theorem isSome_read?_iff : (read? cs).isSome ↔ Numeral cs := by
  rw [isSome_read?_eq]
  constructor
  · rintro ⟨hdigit, hexponent⟩
    obtain ⟨sign, hsign, hcs⟩ := exists_sign cs
    obtain ⟨mantissa, hmantissa, hcs'⟩ := exists_mantissa _ hdigit
    exact ⟨sign, mantissa, _, hsign, hmantissa, hexponent, by rw [hcs', hcs]⟩
  · rintro ⟨sign, mantissa, exponent, hsign, hmantissa, hexponent, rfl⟩
    obtain ⟨hdigit, hrest⟩ := hmantissa.splitMantissa hexponent.head?
    rw [hsign.splitSign hmantissa.head?, hrest]
    exact ⟨hdigit, hexponent⟩

instance (cs : List Char) : Decidable (Numeral cs) := decidable_of_iff _ isSome_read?_iff

example : Numeral "-.5e+07".toList ∧ Numeral "3.E0".toList := by decide

example : ¬Numeral "+.".toList ∧ ¬Numeral "--1".toList ∧ ¬Numeral "e5".toList ∧
    ¬Numeral "1e".toList := by decide

/-! ## The characters of numerals -/

theorem isDecimal_of_isDigit {c : Char} (h : c.isDigit) : Number.isDecimal c := by
  simp [Number.isDecimal, h]

theorem isDecimal_point : Number.isDecimal '.' := by decide

theorem Sign.isDecimal (h : Sign sign) : ∀ c ∈ sign, Number.isDecimal c := by
  cases h <;> exact List.all_eq_true.mp rfl

theorem Mantissa.isDecimal (h : Mantissa mantissa) : ∀ c ∈ mantissa, Number.isDecimal c := by
  cases h with
  | whole _ hdigits => exact fun c hc ↦ isDecimal_of_isDigit (hdigits c hc)
  | point _ hdigits hfraction =>
    rw [List.forall_mem_append, List.forall_mem_cons]
    exact ⟨fun c hc ↦ isDecimal_of_isDigit (hdigits c hc), isDecimal_point,
      fun c hc ↦ isDecimal_of_isDigit (hfraction c hc)⟩
  | fraction _ hfraction =>
    rw [List.forall_mem_cons]
    exact ⟨isDecimal_point, fun c hc ↦ isDecimal_of_isDigit (hfraction c hc)⟩

theorem Exponent.isDecimal (h : Exponent exponent) : ∀ c ∈ exponent, Number.isDecimal c := by
  cases h with
  | none => simp
  | power hmark hsign _ hdigits =>
    rw [List.forall_mem_cons, List.forall_mem_append]
    refine ⟨?_, hsign.isDecimal, fun c hc ↦ isDecimal_of_isDigit (hdigits c hc)⟩
    rcases hmark with rfl | rfl <;> decide

theorem Numeral.isDecimal (h : Numeral cs) : ∀ c ∈ cs, Number.isDecimal c := by
  obtain ⟨sign, mantissa, exponent, hsign, hmantissa, hexponent, rfl⟩ := h
  rw [List.forall_mem_append, List.forall_mem_append]
  exact ⟨hsign.isDecimal, hmantissa.isDecimal, hexponent.isDecimal⟩

/-! ## Literals -/

theorem Mantissa.exists_isDigit (h : Mantissa cs) : ∃ c ∈ cs, c.isDigit := by
  cases h with
  | whole hne hdigits =>
    obtain ⟨c, hc⟩ := List.exists_mem_of_ne_nil _ hne
    exact ⟨c, hc, hdigits c hc⟩
  | point hne hdigits =>
    obtain ⟨c, hc⟩ := List.exists_mem_of_ne_nil _ hne
    exact ⟨c, List.mem_append_left _ hc, hdigits c hc⟩
  | fraction hne hfraction =>
    obtain ⟨c, hc⟩ := List.exists_mem_of_ne_nil _ hne
    exact ⟨c, List.mem_cons_of_mem _ hc, hfraction c hc⟩

theorem count_point_of_digits (h : ∀ c ∈ digits, c.isDigit) : digits.count '.' = 0 :=
  List.count_eq_zero.mpr fun hmem ↦ absurd (h _ hmem) (by decide)

theorem Mantissa.count_le (h : Mantissa cs) : cs.count '.' ≤ 1 := by
  cases h with
  | whole _ hdigits => simp [count_point_of_digits hdigits]
  | point _ hdigits hfraction =>
    simp [count_point_of_digits hdigits, count_point_of_digits hfraction]
  | fraction _ hfraction => simp [count_point_of_digits hfraction]

theorem isDigit_of_count (h : ∀ c ∈ cs, Piece.isNumber c) (hcount : cs.count '.' = 0) :
    ∀ c ∈ cs, c.isDigit := by
  intro c hc
  have hnumber := h c hc
  rw [Piece.isNumber, Bool.or_eq_true, beq_iff_eq] at hnumber
  exact hnumber.resolve_right fun hpoint ↦ List.count_eq_zero.mp hcount (hpoint ▸ hc)

/-- Digits and points are a mantissa if there are a digit and at most one point. -/
theorem mantissa_of_count (h : ∀ c ∈ cs, Piece.isNumber c) (hdigit : ∃ c ∈ cs, c.isDigit)
    (hcount : cs.count '.' ≤ 1) : Mantissa cs := by
  obtain ⟨d, hd, hdigit⟩ := hdigit
  by_cases hpoint : '.' ∈ cs
  · -- the count leaves no point beside this one
    obtain ⟨whole, fraction, rfl⟩ := List.append_of_mem hpoint
    simp only [List.count_append, List.count_cons_self] at hcount
    have hwhole := isDigit_of_count (fun c hc ↦ h c (List.mem_append_left _ hc)) (by omega)
    have hfraction : ∀ c ∈ fraction, c.isDigit := isDigit_of_count
      (fun c hc ↦ h c (List.mem_append_right _ (List.mem_cons_of_mem _ hc))) (by omega)
    by_cases hne : whole = []
    · subst hne
      refine .fraction ?_ hfraction
      rintro rfl
      obtain rfl := List.mem_singleton.mp hd
      exact absurd hdigit (by decide)
    · exact .point hne hwhole hfraction
  · exact .whole (List.ne_nil_of_mem hd) (isDigit_of_count h (List.count_eq_zero.mpr hpoint))

/-- Among digits and points only a mantissa is a numeral. -/
theorem numeral_iff_mantissa (h : ∀ c ∈ cs, Piece.isNumber c) : Numeral cs ↔ Mantissa cs := by
  constructor
  · rintro ⟨sign, mantissa, exponent, hsign, hmantissa, hexponent, rfl⟩
    have hempty : sign = [] := by
      cases hsign with
      | none => rfl
      | plus | minus => exact absurd (h _ List.mem_cons_self) (by decide)
    have hempty' : exponent = [] := by
      cases hexponent with
      | none => rfl
      | power hmark =>
        have hnumber := h _ (List.mem_append_right _ (List.mem_append_right _ List.mem_cons_self))
        rcases hmark with rfl | rfl <;> exact absurd hnumber (by decide)
    rwa [hempty, hempty', List.nil_append, List.append_nil]
  · exact fun hmantissa ↦ ⟨[], cs, [], .none, hmantissa, .none, (List.append_nil cs).symm⟩

/-- **Digits and points are a numeral if there are a digit and at most one point.** -/
theorem numeral_iff_count (h : ∀ c ∈ cs, Piece.isNumber c) :
    Numeral cs ↔ (∃ c ∈ cs, c.isDigit) ∧ cs.count '.' ≤ 1 := by
  rw [numeral_iff_mantissa h]
  exact ⟨fun hmantissa ↦ ⟨hmantissa.exists_isDigit, hmantissa.count_le⟩,
    fun ⟨hdigit, hcount⟩ ↦ mantissa_of_count h hdigit hcount⟩

end Decimal

/-! ## Blank texts -/

theorem Text.trim_eq_nil_iff {cs : List Char} : Text.trim cs = [] ↔ ∀ c ∈ cs, Text.isBlank c := by
  constructor
  · intro h c hc
    obtain ⟨hwhole, hfront, hback, -, -⟩ := trimmed_iff.mpr ⟨rfl, h.symm, rfl⟩
    rw [hwhole, List.nil_append] at hc
    exact (List.mem_append.mp hc).elim (hfront c) (hback c)
  · intro h
    have hcs : Trimmed cs cs [] [] := ⟨by simp, h, by simp, by simp, by simp⟩
    exact hcs.trim_eq

namespace Number

variable {s : String} {x : Float}

/-! ## Words -/

theorem toLower_of_isDecimal {c : Char} (h : isDecimal c) : c.toLower ≠ 'i' ∧ c.toLower ≠ 'n' := by
  have hdigit (h : c.isDigit) : c.toLower = c := by
    refine dif_neg fun hletter ↦ ?_
    have hhigh : c.toNat ≤ 57 := (Char.isDigit_iff_toNat.mp h).2
    have hlow : 65 ≤ c.toNat := UInt32.le_iff_toNat_le.mp hletter.1
    omega
  simp only [isDecimal, Bool.or_eq_true, beq_iff_eq] at h
  rcases h with ((((h | rfl) | rfl) | rfl) | rfl) | rfl
  · rw [hdigit h]
    constructor <;> (rintro rfl; exact absurd h (by decide))
  all_goals decide

/-- No word is made of the characters of numerals. -/
theorem ofWord?_of_isDecimal {cs : List Char} (h : ∀ c ∈ cs, isDecimal c) (negative : Bool) :
    ofWord? negative (cs.map Char.toLower) = none := by
  have hword {word : List Char} (hhead : word.head? = some 'i' ∨ word.head? = some 'n') :
      cs.map Char.toLower ≠ word := by
    rintro rfl
    cases cs with
    | nil => simp at hhead
    | cons c cs =>
      obtain ⟨hi, hn⟩ := toLower_of_isDecimal (h c List.mem_cons_self)
      rcases hhead with hhead | hhead
      · exact hi (Option.some.inj hhead)
      · exact hn (Option.some.inj hhead)
  rw [ofWord?, if_neg (not_or.mpr ⟨hword (.inl rfl), hword (.inl rfl)⟩), if_neg (hword (.inr rfl))]

theorem read?_of_isDecimal {cs : List Char} (h : ∀ c ∈ cs, isDecimal c) : read? cs =
    (Decimal.read? cs).map fun (negative, d) ↦ Binary64.ofMagnitude negative d.magnitude := by
  obtain ⟨sign, -, hsign⟩ := Decimal.exists_sign cs
  have hunsigned : ∀ c ∈ (Decimal.splitSign cs).2, isDecimal c := fun c hc ↦
    h c (hsign ▸ List.mem_append_right sign hc)
  simp only [read?, ofWord?_of_isDecimal hunsigned, Option.none_or]

/-- **Filter and reader together accept numerals.** -/
theorem parse?_eq (s : String) : parse? s = (Decimal.read? (Text.trim s.toList)).map
    fun (negative, d) ↦ Binary64.ofMagnitude negative d.magnitude := by
  rw [parse?]
  by_cases hcs : ∀ c ∈ Text.trim s.toList, isDecimal c
  · have hall : (Text.trim s.toList).all isDecimal = true := List.all_eq_true.mpr hcs
    simp only [hall, Bool.not_true, Bool.or_false, List.isEmpty_iff]
    split
    · next hempty =>
      rw [hempty]
      rfl
    · exact read?_of_isDecimal hcs
  · have hnone : Decimal.read? (Text.trim s.toList) = none := by
      rw [← Option.not_isSome_iff_eq_none, Decimal.isSome_read?_iff]
      exact fun hnumeral ↦ hcs hnumeral.isDecimal
    have hall : (Text.trim s.toList).all isDecimal = false := by simpa using hcs
    simp only [hall, Bool.not_false, Bool.or_true, if_true, hnone, Option.map_none]

example : (read? "-Infinity".toList).isSome ∧ (parse? "-Infinity").isNone := by decide

/-! ## The numbers of texts -/

theorem isSome_parse?_iff : (parse? s).isSome ↔ Decimal.Numeral (Text.trim s.toList) := by
  rw [parse?_eq, Option.isSome_map, Decimal.isSome_read?_iff]

/-- No numeral stands for what is not a number: one that is too large is infinite. -/
theorem not_isNaN_of_parse? (h : parse? s = some x) : ¬x.isNaN := by
  rw [parse?_eq] at h
  obtain ⟨⟨negative, d⟩, -, rfl⟩ := Option.map_eq_some_iff.mp h
  dsimp only
  rw [Binary64.isNaN_iff, Binary64.magnitude_ofMagnitude]
  omega

theorem isNaN_getD_nan : ((parse? s).getD Binary64.nan).isNaN ↔ parse? s = none := by
  cases h : parse? s with
  | none => exact iff_of_true (by decide) rfl
  | some x => exact iff_of_false (not_isNaN_of_parse? h) (by simp)

theorem isNaN_ofLiteral_iff (h : ∀ c ∈ s.toList, Piece.isNumber c) :
    (ofLiteral s).isNaN ↔ (∀ c ∈ s.toList, ¬c.isDigit) ∨ 1 < s.toList.count '.' := by
  have htrim := (Trimmed.of_forall fun c hc ↦ not_isBlank_of_isNumber (h c hc)).trim_eq
  rw [ofLiteral, isNaN_getD_nan, ← Option.not_isSome_iff_eq_none, isSome_parse?_iff, htrim,
    Decimal.numeral_iff_count h, not_and_or, not_le]
  simp

/-- Blank texts are no numerals. -/
theorem parse?_eq_none_of_trim (h : Text.trim s.toList = []) : parse? s = none := by
  rw [parse?, h]
  rfl

theorem ofComparedText_of_trim (h : Text.trim s.toList = []) : ofComparedText s = 0 :=
  if_pos (List.all_eq_true.mpr (Text.trim_eq_nil_iff.mp h))

theorem ofComparedText_of_trim_ne (h : Text.trim s.toList ≠ []) :
    ofComparedText s = (parse? s).getD Binary64.nan :=
  if_neg fun hall ↦ h (Text.trim_eq_nil_iff.mpr (List.all_eq_true.mp hall))

theorem ofComparedText_of_parse? (h : parse? s = some x) : ofComparedText s = x := by
  have hne : Text.trim s.toList ≠ [] := fun hblank ↦
    Option.some_ne_none x (h.symm.trans (parse?_eq_none_of_trim hblank))
  rw [ofComparedText_of_trim_ne hne, h, Option.getD_some]

/-- **Which texts are numbers.** A text has a number if it is a numeral without the blanks around
it, and then it stands for that number wherever it is read. A literal fails to be one if it has no
digit or two points; any other text without a number is `0`, except where texts are tested for
equality and it is not blank. -/
theorem number_of_text (s : String) :
    ((parse? s).isSome ↔ Decimal.Numeral (Text.trim s.toList)) ∧
    (∀ x, parse? s = some x → ¬x.isNaN ∧ ofText s = x ∧ ofComparedText s = x) ∧
    ((∀ c ∈ s.toList, Piece.isNumber c) →
      ((ofLiteral s).isNaN ↔ (∀ c ∈ s.toList, ¬c.isDigit) ∨ 1 < s.toList.count '.')) ∧
    (parse? s = none → ofText s = 0) ∧
    (Text.trim s.toList = [] → ofComparedText s = 0) ∧
    (parse? s = none → Text.trim s.toList ≠ [] → (ofComparedText s).isNaN) := by
  refine ⟨isSome_parse?_iff, fun x hx ↦ ⟨not_isNaN_of_parse? hx, ?_, ofComparedText_of_parse? hx⟩,
    isNaN_ofLiteral_iff, fun hnone ↦ ?_, ofComparedText_of_trim, fun hnone hne ↦ ?_⟩
  · rw [ofText, hx, Option.getD_some]
  · rw [ofText, hnone, Option.getD_none]
  · rw [ofComparedText_of_trim_ne hne, isNaN_getD_nan]
    exact hnone

theorem number_of_text_two_points : (ofLiteral "1.2.3").isNaN ∧ ofText "1.2.3" = 0 := by
  obtain ⟨-, -, hliteral, htext, -⟩ := number_of_text "1.2.3"
  have hnumber : ∀ c ∈ "1.2.3".toList, Piece.isNumber c := List.all_eq_true.mp rfl
  exact ⟨(hliteral hnumber).mpr (.inr (by decide)), htext (by decide)⟩

end Number

end Formula
