import Formula.Operator
import Formula.Proofs.NumeralGrammar

/-!
# Equality and ordering agree

Equality reads a text in one way and ordering in another, and values of one kind are equal without
being read as numbers at all. Still the comparisons fit together: equal values are ordered both ways
and neither is before the other, and turning a comparison round turns its operands
(`Comparison.coherent`). The reason is that the two readings differ on words alone
(`Number.ofComparedText_eq_ofText`), and a word does not equal anything of another kind, because it
is compared as what is no number (`Number.isNaN_ofComparedText`).

The converse fails. Values with one number need not be equal, and the pairs for which this happens
are listed (`Value.Tied`): different texts of one number, and a word, which is a zero where values
are ordered, with a zero of another kind.
-/

namespace Formula

/-! ## The order of doubles -/

namespace Binary64

open Float.Model Float.Model.UnpackedFloat

variable {x y : Float}

/-- How two doubles are ordered. They are not if one of them is not a number. -/
def order (x y : Float) : Option Ordering := x.toModel.unpack.compare y.toModel.unpack

theorem lt_iff : x < y ↔ order x y = some .lt := by
  change decide ((order x y == some .lt) = true) = true ↔ _
  rw [decide_eq_true_iff, beq_iff_eq]

theorem le_iff : x ≤ y ↔ order x y = some .lt ∨ order x y = some .eq := by
  change decide ((order x y).any Ordering.isLE = true) = true ↔ _
  rcases order x y with _ | _ | _ | _ <;> simp

theorem beq_iff : (x == y) = true ↔ order x y = some .eq := by
  change (order x y == some .eq) = true ↔ _
  rw [beq_iff_eq]

/-- Turning the operands round turns their order round. -/
theorem order_swap (x y : Float) : (order x y).map Ordering.swap = order y x := by
  unfold order
  generalize x.toModel.unpack = a
  generalize y.toModel.unpack = b
  have hswap (e f : Int) (m n : Nat) :
      ((compare e f).then (compare m n)).swap = (compare f e).then (compare n m) := by
    rw [Ordering.swap_then, Int.compare_swap, Nat.compare_swap]
  -- only finite doubles of one sign are compared by more than what kind of double they are
  rcases a with ⟨_ | _⟩ | _ | ⟨_ | _⟩ | ⟨_ | _, m, e, hm⟩ <;>
    rcases b with ⟨_ | _⟩ | _ | ⟨_ | _⟩ | ⟨_ | _, n, f, hn⟩ <;> try rfl
  · exact congrArg (fun o ↦ some (Ordering.swap o)) (hswap e f m n)
  · exact congrArg some (hswap e f m n)

/-- What is a number equals itself. -/
theorem order_self (h : ¬x.isNaN) : order x x = some .eq := by
  change ¬(x.toModel.unpack).isNaN at h
  unfold order
  generalize x.toModel.unpack = a at h
  have hself (e : Int) (m : Nat) : (compare e e).then (compare m m) = .eq := by simp
  rcases a with ⟨_ | _⟩ | _ | ⟨_ | _⟩ | ⟨_ | _, m, e, hm⟩
  any_goals rfl
  · exact absurd rfl h
  · exact congrArg (fun o ↦ some (Ordering.swap o)) (hself e m)
  · exact congrArg some (hself e m)

/-- What is not a number has no place in the order. -/
theorem order_eq_none (h : x.isNaN) : order x y = none := by
  change (x.toModel.unpack).isNaN at h
  unfold order
  generalize x.toModel.unpack = a at h
  cases a with
  | notANumber => rfl
  | infinity | zero | finite => exact absurd h Bool.false_ne_true

theorem beq_swap (x y : Float) : (x == y) = (y == x) := by
  rw [Bool.eq_iff_iff, beq_iff, beq_iff, ← order_swap x y]
  rcases order x y with _ | _ | _ | _ <;> simp

/-- Doubles are equal if and only if they are ordered both ways. -/
theorem beq_iff_le_and_le : (x == y) = true ↔ x ≤ y ∧ y ≤ x := by
  rw [beq_iff, le_iff, le_iff, ← order_swap x y]
  rcases order x y with _ | _ | _ | _ <;> simp

theorem not_lt_of_beq (h : (x == y) = true) : ¬x < y := by
  rw [lt_iff, beq_iff.mp h]
  simp

theorem not_lt_of_lt (h : x < y) : ¬y < x := by
  rw [lt_iff, ← order_swap x y, lt_iff.mp h]
  simp

theorem beq_self (h : ¬x.isNaN) : (x == x) = true := beq_iff.mpr (order_self h)

theorem beq_eq_false_of_isNaN (h : x.isNaN) : (x == y) = false := by
  rw [← Bool.not_eq_true, beq_iff, order_eq_none h]
  simp

end Binary64

/-! ## The numbers of a text -/

namespace Number

open Binary64

variable {s : String}

/-- A text that is neither blank nor a numeral. -/
def IsWord (s : String) : Prop := Text.trim s.toList ≠ [] ∧ parse? s = none

theorem ofText_of_isWord (h : IsWord s) : ofText s = 0 := by rw [ofText, h.2, Option.getD_none]

theorem isNaN_ofComparedText (h : IsWord s) : (ofComparedText s).isNaN := by
  rw [ofComparedText_of_trim_ne h.1]
  exact isNaN_getD_nan.mpr h.2

/-- Only words are read in two ways. -/
theorem ofComparedText_eq_ofText (h : ¬IsWord s) : ofComparedText s = ofText s := by
  cases hs : parse? s with
  | some x => rw [ofComparedText_of_parse? hs, ofText, hs, Option.getD_some]
  | none =>
    have hblank : Text.trim s.toList = [] := Classical.not_not.mp fun hne ↦ h ⟨hne, hs⟩
    rw [ofComparedText_of_trim hblank, ofText, hs, Option.getD_none]

theorem not_isNaN_ofText (s : String) : ¬(ofText s).isNaN := by
  unfold ofText
  cases hs : parse? s with
  | some x => exact not_isNaN_of_parse? hs
  | none => exact Bool.false_ne_true

end Number

/-! ## Loose equality -/

namespace Value

open Binary64

variable {v w : Value} {s : String}

theorem eq_text_or (v : Value) : (∃ s, v = text s) ∨ v.text? = none := by
  cases v with
  | text s => exact .inl ⟨s, rfl⟩
  | number | boolean => exact .inr rfl

theorem looselyEquals_text_left (hv : v.text? = none) :
    (text s).looselyEquals v = (Number.ofComparedText s == v.toNumber) := by
  cases v with
  | text t => exact absurd hv (Option.some_ne_none t)
  | number | boolean => rfl

theorem looselyEquals_text_right (hv : v.text? = none) :
    v.looselyEquals (text s) = (v.toNumber == Number.ofComparedText s) := by
  cases v with
  | text t => exact absurd hv (Option.some_ne_none t)
  | number | boolean => rfl

/-- Without texts equality is that of numbers, and truth values have different ones. -/
theorem looselyEquals_of_text?_eq_none (hv : v.text? = none) (hw : w.text? = none) :
    v.looselyEquals w = (v.toNumber == w.toNumber) := by
  cases v with
  | text s => exact absurd hv (Option.some_ne_none s)
  | number x =>
    cases w with
    | text t => exact absurd hw (Option.some_ne_none t)
    | number | boolean => rfl
  | boolean b =>
    cases w with
    | text t => exact absurd hw (Option.some_ne_none t)
    | number => rfl
    | boolean c => cases b <;> cases c <;> rfl

theorem looselyEquals_comm (v w : Value) : v.looselyEquals w = w.looselyEquals v := by
  rcases eq_text_or v with ⟨s, rfl⟩ | hv <;> rcases eq_text_or w with ⟨t, rfl⟩ | hw
  · exact BEq.comm
  · rw [looselyEquals_text_left hw, looselyEquals_text_right hw, beq_swap]
  · rw [looselyEquals_text_left hv, looselyEquals_text_right hv, beq_swap]
  · rw [looselyEquals_of_text?_eq_none hv hw, looselyEquals_of_text?_eq_none hw hv, beq_swap]

/-- Pairs of values that are ordered both ways and are not equal: different texts of one number, and
a word with a zero of another kind. -/
inductive Tied : Value → Value → Prop
  | texts {s t : String} (hne : s ≠ t) (hnumber : Number.ofText s == Number.ofText t) :
    Tied (text s) (text t)
  | word {s : String} {v : Value} (hword : Number.IsWord s) (hkind : v.text? = none)
    (hzero : v.toNumber == 0) : Tied (text s) v
  | word_behind {s : String} {v : Value} (hword : Number.IsWord s) (hkind : v.text? = none)
    (hzero : v.toNumber == 0) : Tied v (text s)

theorem Tied.symm (h : Tied v w) : Tied w v := by
  cases h with
  | texts hne hnumber => exact .texts hne.symm (by rwa [beq_swap])
  | word hword hkind hzero => exact .word_behind hword hkind hzero
  | word_behind hword hkind hzero => exact .word hword hkind hzero

/-- A text and a value of another kind have one number if they are equal, and otherwise only as a
word and a zero. -/
theorem beq_toNumber_text_iff (hv : v.text? = none) : Number.ofText s == v.toNumber ↔
    (text s).looselyEquals v ∨ Tied (text s) v := by
  have htied : Tied (text s) v ↔ Number.IsWord s ∧ v.toNumber == 0 := by
    refine ⟨fun h ↦ ?_, fun h ↦ .word h.1 hv h.2⟩
    cases h with
    | texts | word_behind => exact absurd hv (Option.some_ne_none _)
    | word hword _ hzero => exact ⟨hword, hzero⟩
  rw [looselyEquals_text_left hv, htied]
  by_cases hword : Number.IsWord s
  · rw [Number.ofText_of_isWord hword, beq_swap,
      beq_eq_false_of_isNaN (Number.isNaN_ofComparedText hword)]
    simp [hword]
  · rw [Number.ofComparedText_eq_ofText hword]
    simp [hword]

/-- **Two values have one number if and only if they are equal or tied.** -/
theorem beq_toNumber_iff : v.toNumber == w.toNumber ↔ v.looselyEquals w ∨ Tied v w := by
  rcases eq_text_or v with ⟨s, rfl⟩ | hv <;> rcases eq_text_or w with ⟨t, rfl⟩ | hw
  · change Number.ofText s == Number.ofText t ↔ s == t ∨ _
    by_cases heq : s = t
    · subst heq
      exact iff_of_true (beq_self (Number.not_isNaN_ofText s)) (.inl BEq.rfl)
    · refine ⟨fun hnumber ↦ .inr (.texts heq hnumber), fun h ↦ ?_⟩
      rcases h with h | h
      · exact absurd (eq_of_beq h) heq
      · cases h with
        | texts _ hnumber => exact hnumber
        | word _ hkind | word_behind _ hkind => exact absurd hkind (Option.some_ne_none _)
  · exact beq_toNumber_text_iff hw
  · rw [beq_swap, looselyEquals_comm]
    exact (beq_toNumber_text_iff hv).trans (or_congr_right ⟨Tied.symm, Tied.symm⟩)
  · rw [looselyEquals_of_text?_eq_none hv hw]
    refine ⟨.inl, fun h ↦ h.resolve_right fun htied ↦ ?_⟩
    cases htied with
    | texts => exact absurd hv (Option.some_ne_none _)
    | word => exact absurd hv (Option.some_ne_none _)
    | word_behind => exact absurd hw (Option.some_ne_none _)

theorem Tied.not_looselyEquals (h : Tied v w) : ¬v.looselyEquals w := by
  cases h with
  | texts hne => exact fun heq ↦ hne (eq_of_beq heq)
  | word hword hkind =>
    rw [looselyEquals_text_left hkind, beq_eq_false_of_isNaN (Number.isNaN_ofComparedText hword)]
    exact Bool.false_ne_true
  | word_behind hword hkind =>
    rw [looselyEquals_text_right hkind, beq_swap,
      beq_eq_false_of_isNaN (Number.isNaN_ofComparedText hword)]
    exact Bool.false_ne_true

end Value

/-! ## Comparisons -/

namespace Comparison

open Binary64

/-- **Loose equality and ordering are coherent.** A comparison turned round is the one of the
operands turned round; equal values are ordered both ways and strictly in none, so that at most one
of the three strict relations holds; and values that are ordered both ways are equal or tied. -/
theorem coherent (v w : Value) :
    (equal.holds v w = equal.holds w v ∧ greater.holds v w = less.holds w v ∧
      greaterEqual.holds v w = lessEqual.holds w v) ∧
    (equal.holds v w → lessEqual.holds v w ∧ greaterEqual.holds v w ∧
      ¬less.holds v w ∧ ¬greater.holds v w) ∧
    (¬(less.holds v w ∧ equal.holds v w) ∧ ¬(equal.holds v w ∧ greater.holds v w) ∧
      ¬(less.holds v w ∧ greater.holds v w)) ∧
    (lessEqual.holds v w ∧ greaterEqual.holds v w ∧ ¬equal.holds v w ↔ v.Tied w) := by
  have hequal : equal.holds v w → lessEqual.holds v w ∧ greaterEqual.holds v w ∧
      ¬less.holds v w ∧ ¬greater.holds v w := by
    intro h
    have hnumber : v.toNumber == w.toNumber := Value.beq_toNumber_iff.mpr (.inl h)
    simp only [holds, decide_eq_true_iff]
    obtain ⟨hle, hge⟩ := beq_iff_le_and_le.mp hnumber
    exact ⟨hle, hge, not_lt_of_beq hnumber, not_lt_of_beq (by rwa [beq_swap])⟩
  refine ⟨⟨Value.looselyEquals_comm v w, rfl, rfl⟩, hequal, ⟨?_, ?_, ?_⟩, ?_⟩
  · exact fun h ↦ (hequal h.2).2.2.1 h.1
  · exact fun h ↦ (hequal h.1).2.2.2 h.2
  · simp only [holds, decide_eq_true_iff]
    exact fun h ↦ not_lt_of_lt h.1 h.2
  · rw [← and_assoc]
    simp only [holds, decide_eq_true_iff]
    rw [← beq_iff_le_and_le, Value.beq_toNumber_iff]
    exact ⟨fun h ↦ h.1.resolve_left h.2, fun h ↦ ⟨.inr h, h.not_looselyEquals⟩⟩

end Comparison

end Formula
