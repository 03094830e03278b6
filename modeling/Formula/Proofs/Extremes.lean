import Formula.Function.Standard
import Formula.Proofs.Coherence

/-!
# The least and the greatest argument

`min` and `max` take the numbers of their arguments together two at a time, and what is not a number
gives way wherever it stands. So they come to an argument that no other one beats, if any of them is
a number, and the order of the arguments does not show in what they come to
(`StandardFunction.unbeaten_min_max`).

## Places

That comparing three doubles in turn makes sense is not part of how two are compared: the library's
model unpacks them and looks at signs, exponents and significands. All of these are read off the
place of a double, which is its magnitude counted from zero, downwards if it is negative. Doubles
that are numbers are ordered as their places are (`Binary64.order_eq`), and the two zeros are the
only ones that share a place (`Binary64.sameNumber_of_place_eq`).
-/

namespace Formula

namespace Binary64

open Float.Model Float.Model.UnpackedFloat

variable {x y : Float}

/-! ## Places -/

/-- A magnitude counted from zero, downwards if the sign is negative. -/
def signed : Sign → Nat → Int
  | .negative, m => -(m : Int)
  | .positive, m => m

/-- The place of a double among the others. -/
def place (x : Float) : Int :=
  signed (if isNegative x then .negative else .positive) (magnitude x)

theorem place_eq (x : Float) :
    place x = if isNegative x then -(magnitude x : Int) else magnitude x := by
  unfold place
  split <;> rfl

/-- What the doubles that are numbers are unpacked to, by sign and magnitude. The exponent is
counted as it is written, and without a leading bit as if it were one. -/
inductive Unpacks (s : Sign) : UnpackedFloat → Nat → Prop
  | infinity : Unpacks s (.infinity s) infinity
  | zero : Unpacks s (.zero s) 0
  | finite {m e : Nat} (hm : 0 < m) (he : 1 ≤ e) (hlt : m < 2 * binade) (hlead : e = 1 ∨ binade ≤ m)
    (hfinite : (e - 1) * binade + m < Binary64.infinity) :
    Unpacks s (.finite s m ((e : Int) - 1075) hm) ((e - 1) * binade + m)

theorem magnitude_fields (b : Pattern) :
    b.toNat % signBit = (unpackExponent b).toNat * binade + (unpackMantissa b).toNat := by
  rw [toNat_unpackExponent, toNat_unpackMantissa]
  unfold signBit binade
  omega

theorem unpacks_unpack {b : Pattern} (h : ¬(UnpackedFloat.unpack Format.binary64 b).isNaN) :
    Unpacks (Sign.ofBitVec (unpackSign b)) (UnpackedFloat.unpack Format.binary64 b)
      (b.toNat % signBit) := by
  have hmant : (unpackMantissa b).toNat < 0x10000000000000 := (unpackMantissa b).isLt
  have hexp : (unpackExponent b).toNat < 2048 := (unpackExponent b).isLt
  have hzeroMant : unpackMantissa b = 0#_ ↔ (unpackMantissa b).toNat = 0 :=
    ⟨fun h ↦ by rw [h]; rfl, fun h ↦ BitVec.eq_of_toNat_eq h⟩
  have hzeroExp : unpackExponent b = 0#_ ↔ (unpackExponent b).toNat = 0 :=
    ⟨fun h ↦ by rw [h]; rfl, fun h ↦ BitVec.eq_of_toNat_eq h⟩
  rw [isNaN_unpack_iff] at h
  rw [magnitude_fields]
  unfold UnpackedFloat.unpack
  by_cases hfull : (unpackExponent b).toNat = 2047
  · have hzero : (unpackMantissa b).toNat = 0 := by omega
    rw [if_pos (unpackExponent_eq_iff.mpr hfull), if_pos (hzeroMant.mpr hzero), hfull, hzero]
    exact .infinity
  rw [if_neg (mt unpackExponent_eq_iff.mp hfull)]
  by_cases hsub : (unpackExponent b).toNat = 0
  · rw [if_pos (hzeroExp.mpr hsub), hsub]
    by_cases hzero : (unpackMantissa b).toNat = 0
    · rw [dif_pos (hzeroMant.mpr hzero), hzero]
      exact .zero
    · rw [dif_neg (mt hzeroMant.mp hzero)]
      have hpos : 0 < (unpackMantissa b).toNat := Nat.pos_of_ne_zero hzero
      exact .finite (e := 1) hpos (Nat.le_refl 1) (by unfold binade; omega) (.inl rfl)
        (by unfold infinity binade; omega)
  · -- the leading bit takes the place of one in the exponent
    have hvalue : (1#1 ++ unpackMantissa b).toNat = binade + (unpackMantissa b).toNat := by
      rw [BitVec.toNat_append, ← Nat.shiftLeft_add_eq_or_of_lt (unpackMantissa b).isLt]
      rfl
    unfold binade at hvalue
    have hmagnitude : (unpackExponent b).toNat * binade + (unpackMantissa b).toNat
        = ((unpackExponent b).toNat - 1) * binade + (1#1 ++ unpackMantissa b).toNat := by
      unfold binade
      omega
    rw [if_neg (mt hzeroExp.mp hsub), hmagnitude]
    exact .finite (m := (1#1 ++ unpackMantissa b).toNat) (by omega) (by omega)
      (by unfold binade; omega) (.inr (by unfold binade; omega)) (by unfold infinity binade; omega)

/-- In the order of two doubles with one sign the exponents count before the significands, as they
do in their magnitudes. -/
theorem compare_then {e f m n : Nat} (he : 1 ≤ e) (hf : 1 ≤ f) (hm : m < 2 * binade)
    (hn : n < 2 * binade) (hlead : e = 1 ∨ binade ≤ m) (hlead' : f = 1 ∨ binade ≤ n) :
    (compare ((e : Int) - 1075) ((f : Int) - 1075)).then (compare m n)
      = compare (((e - 1) * binade + m : Nat) : Int) (((f - 1) * binade + n : Nat) : Int) := by
  unfold binade at *
  rcases Nat.lt_trichotomy e f with hlt | rfl | hlt
  · rw [Int.compare_eq_lt.mpr (by omega), Int.compare_eq_lt.mpr (by omega)]
    rfl
  · rw [Int.compare_eq_eq.mpr rfl]
    rcases Nat.lt_trichotomy m n with hlt | rfl | hlt
    · rw [Nat.compare_eq_lt.mpr hlt, Int.compare_eq_lt.mpr (by omega)]
      rfl
    · rw [Nat.compare_eq_eq.mpr rfl, Int.compare_eq_eq.mpr rfl]
      rfl
    · rw [Nat.compare_eq_gt.mpr hlt, Int.compare_eq_gt.mpr (by omega)]
      rfl
  · rw [Int.compare_eq_gt.mpr (by omega), Int.compare_eq_gt.mpr (by omega)]
    rfl

theorem compare_neg (k l : Int) : compare (-k) (-l) = (compare k l).swap := by
  rw [Int.compare_swap]
  rcases Int.lt_trichotomy k l with hlt | rfl | hlt
  · rw [Int.compare_eq_gt.mpr hlt, Int.compare_eq_gt.mpr (by omega)]
  · rw [Int.compare_eq_eq.mpr rfl, Int.compare_eq_eq.mpr rfl]
  · rw [Int.compare_eq_lt.mpr hlt, Int.compare_eq_lt.mpr (by omega)]

theorem compare_unpacks {s t : Sign} {a b : UnpackedFloat} {m n : Nat} (h : Unpacks s a m)
    (h' : Unpacks t b n) : a.compare b = some (compare (signed s m) (signed t n)) := by
  have hlt {k l : Int} (hkl : k < l) : some .lt = some (compare k l) :=
    congrArg some (Int.compare_eq_lt.mpr hkl).symm
  have heq {k l : Int} (hkl : k = l) : some .eq = some (compare k l) :=
    congrArg some (Int.compare_eq_eq.mpr hkl).symm
  have hgt {k l : Int} (hkl : l < k) : some .gt = some (compare k l) :=
    congrArg some (Int.compare_eq_gt.mpr hkl).symm
  have hinf : 0 < Binary64.infinity := by decide
  -- only finite doubles of one sign are compared by more than what kind of double they are
  rcases h with _ | _ | ⟨hm, he, hmlt, hmlead, hmfinite⟩ <;>
    rcases h' with _ | _ | ⟨hn, hf, hnlt, hnlead, hnfinite⟩ <;> cases s <;> cases t <;>
      dsimp only [UnpackedFloat.compare, signed]
  all_goals first
    | exact hlt (by omega)
    | exact hgt (by omega)
    | exact heq (by omega)
    | rw [compare_neg, compare_then he hf hmlt hnlt hmlead hnlead]
    | rw [compare_then he hf hmlt hnlt hmlead hnlead]

theorem sign_ofBitVec (x : Float) :
    Sign.ofBitVec (@unpackSign Format.binary64 x.toBits.toBitVec)
      = if isNegative x then .negative else .positive := by
  have hlt := x.toBits.toNat_lt
  have hsign := toNat_unpackSign x.toBits.toBitVec
  rw [UInt64.toNat_toBitVec] at hsign
  unfold Sign.ofBitVec isNegative signBit
  by_cases hneg : 0x8000000000000000 ≤ x.toBits.toNat
  · rw [if_pos (decide_eq_true hneg), if_neg]
    intro hzero
    rw [hzero] at hsign
    change 0 = _ at hsign
    omega
  · rw [if_neg (mt of_decide_eq_true hneg), if_pos]
    apply BitVec.eq_of_toNat_eq
    rw [hsign]
    change _ = 0
    omega

/-- **Doubles that are numbers are ordered as their places are.** -/
theorem order_eq (hx : ¬x.isNaN) (hy : ¬y.isNaN) :
    order x y = some (compare (place x) (place y)) := by
  have hunpacks {x : Float} (h : ¬x.isNaN) :
      Unpacks (if isNegative x then .negative else .positive) x.toModel.unpack (magnitude x) := by
    rw [← sign_ofBitVec]
    exact unpacks_unpack (b := x.toBits.toBitVec) h
  exact compare_unpacks (hunpacks hx) (hunpacks hy)

/-- Of two doubles one of which comes first, both are numbers. -/
theorem numbers_of_lt (h : x < y) : ¬x.isNaN ∧ ¬y.isNaN := by
  rw [lt_iff] at h
  refine ⟨fun hx ↦ ?_, fun hy ↦ ?_⟩
  · rw [order_eq_none hx] at h
    exact absurd h (by decide)
  · rw [← order_swap y x, order_eq_none hy] at h
    exact absurd h (by decide)

theorem lt_iff_place (hx : ¬x.isNaN) (hy : ¬y.isNaN) : x < y ↔ place x < place y := by
  rw [lt_iff, order_eq hx hy, Option.some.injEq, Int.compare_eq_lt]

theorem le_iff_place (hx : ¬x.isNaN) (hy : ¬y.isNaN) : x ≤ y ↔ place x ≤ place y := by
  rw [le_iff, order_eq hx hy, Option.some.injEq, Option.some.injEq, Int.compare_eq_lt,
    Int.compare_eq_eq, Int.le_iff_lt_or_eq]

/-! ### One number -/

/-- Whether two doubles count as one number: the two zeros do, and otherwise only what is the
same. -/
def SameNumber (x y : Float) : Prop := x = y ∨ (x == 0 ∧ y == 0)

theorem sameNumber_of_isNaN (hx : x.isNaN) (hy : y.isNaN) : SameNumber x y :=
  .inl ((eq_nan hx).trans (eq_nan hy).symm)

theorem beq_zero_of_magnitude (h : magnitude x = 0) : x == 0 := by
  have hx : ¬x.isNaN := by rw [isNaN_iff, h]; decide
  have hplace : place x = place 0 := by
    rw [place_eq, h]
    cases isNegative x <;> decide
  rw [beq_iff, order_eq hx (by decide), hplace, Int.compare_eq_eq.mpr rfl]

/-- **Doubles in one place are one number.** -/
theorem sameNumber_of_place_eq (hx : ¬x.isNaN) (hy : ¬y.isNaN) (h : place x = place y) :
    SameNumber x y := by
  have hxle : magnitude x ≤ infinity := Nat.not_lt.mp (mt isNaN_iff.mpr hx)
  have hyle : magnitude y ≤ infinity := Nat.not_lt.mp (mt isNaN_iff.mpr hy)
  obtain ⟨hmagnitude, hsign⟩ : magnitude x = magnitude y ∧
      (magnitude x ≠ 0 → isNegative x = isNegative y) := by
    rw [place_eq, place_eq] at h
    grind
  by_cases hzero : magnitude x = 0
  · exact .inr ⟨beq_zero_of_magnitude hzero, beq_zero_of_magnitude (hmagnitude ▸ hzero)⟩
  · left
    rw [eq_ofMagnitude hxle, eq_ofMagnitude hyle, hmagnitude, hsign hzero]

/-! ## Picking one of two -/

/-- A choice between two doubles goes by `rank`, the lower one first, and what is not a number is
chosen only if the other one is not a number either. -/
structure Picks (rank : Float → Int) (pick : Float → Float → Float) : Prop where
  of_isNaN : ∀ {x y : Float}, x.isNaN → pick x y = y
  of_isNaN_right : ∀ {x y : Float}, ¬x.isNaN → y.isNaN → pick x y = x
  lower : ∀ {x y : Float}, ¬x.isNaN → ¬y.isNaN →
    pick x y = x ∧ rank x ≤ rank y ∨ pick x y = y ∧ rank y ≤ rank x

theorem picks_lesser : Picks place lesser where
  of_isNaN hx := if_pos hx
  of_isNaN_right hx hy := by rw [lesser, if_neg hx, hy]; rfl
  lower := by
    intro x y hx hy
    by_cases hle : x ≤ y
    · exact .inl ⟨by grind [lesser], (le_iff_place hx hy).mp hle⟩
    · refine .inr ⟨by grind [lesser], ?_⟩
      rw [le_iff_place hx hy] at hle
      omega

theorem picks_greater : Picks (-place ·) greater where
  of_isNaN hx := if_pos hx
  of_isNaN_right hx hy := by rw [greater, if_neg hx, hy]; rfl
  lower := by
    intro x y hx hy
    by_cases hle : y ≤ x
    · exact .inl ⟨by grind [greater], Int.neg_le_neg ((le_iff_place hy hx).mp hle)⟩
    · refine .inr ⟨by grind [greater], ?_⟩
      rw [le_iff_place hy hx] at hle
      omega

/-- One of some doubles that no other one is in front of by `rank`. It is a number if any of them
is. -/
structure Leads (rank : Float → Int) (xs : List Float) (r : Float) : Prop where
  mem : r ∈ xs
  number : ∀ x ∈ xs, ¬x.isNaN → ¬r.isNaN
  rank_le : ∀ x ∈ xs, ¬x.isNaN → rank r ≤ rank x

theorem Leads.isNaN_iff {rank : Float → Int} {xs : List Float} {r : Float}
    (h : Leads rank xs r) : r.isNaN ↔ ∀ x ∈ xs, x.isNaN :=
  ⟨fun hr x hx ↦ Classical.not_not.mp fun hnumber ↦ h.number x hx hnumber hr,
    fun hall ↦ hall r h.mem⟩

section Picks

variable {rank : Float → Int} {pick : Float → Float → Float} (h : Picks rank pick)
include h

theorem Picks.leads (x y : Float) : Leads rank [x, y] (pick x y) := by
  by_cases hx : x.isNaN
  · rw [h.of_isNaN hx]
    exact ⟨by simp, by grind, by grind⟩
  by_cases hy : y.isNaN
  · rw [h.of_isNaN_right hx hy]
    exact ⟨by simp, by grind, by grind⟩
  rcases h.lower hx hy with ⟨hpick, hle⟩ | ⟨hpick, hle⟩ <;> rw [hpick]
  · exact ⟨by simp, by grind, by grind⟩
  · exact ⟨by simp, by grind, by grind⟩

/-- What leads one of two and all that come behind leads the two as well. -/
theorem Picks.leads_cons {x y r : Float} {ys : List Float} (hr : Leads rank (pick x y :: ys) r) :
    Leads rank (x :: y :: ys) r := by
  have hpick := h.leads x y
  have hsplit {z : Float} (hz : z ∈ x :: y :: ys) : z ∈ [x, y] ∨ z ∈ ys := by
    simpa [or_assoc] using hz
  refine ⟨?_, fun z hz hnumber ↦ ?_, fun z hz hnumber ↦ ?_⟩
  · rcases List.mem_cons.mp hr.mem with rfl | hr'
    · exact List.mem_append_left ys hpick.mem
    · exact List.mem_append_right [x, y] hr'
  · rcases hsplit hz with hz | hz
    · exact hr.number _ List.mem_cons_self (hpick.number z hz hnumber)
    · exact hr.number z (List.mem_cons_of_mem _ hz) hnumber
  · rcases hsplit hz with hz | hz
    · exact Int.le_trans (hr.rank_le _ List.mem_cons_self (hpick.number z hz hnumber))
        (hpick.rank_le z hz hnumber)
    · exact hr.rank_le z (List.mem_cons_of_mem _ hz) hnumber

/-- **Picking one after the other comes to one that leads all.** -/
theorem Picks.leads_foldl (xs : List Float) : ∀ x : Float,
    Leads rank (x :: xs) (xs.foldl pick x) := by
  induction xs with
  | nil => exact fun x ↦ ⟨by simp, by simp, by simp⟩
  | cons y ys ih => exact fun x ↦ h.leads_cons (ih (pick x y))

end Picks

/-- Two lists with the same numbers in them are led by the same number. -/
theorem Leads.sameNumber {rank : Float → Int} {xs ys : List Float} {r s : Float}
    (hr : Leads rank xs r) (hs : Leads rank ys s)
    (hrank : ∀ {x y : Float}, rank x = rank y → place x = place y)
    (hxs : ∀ x ∈ xs, ¬x.isNaN → x ∈ ys) (hys : ∀ y ∈ ys, ¬y.isNaN → y ∈ xs) : SameNumber r s := by
  by_cases hnumber : s.isNaN
  · have hall : ∀ x ∈ xs, x.isNaN := fun x hx ↦ Classical.not_not.mp fun hx' ↦
      hs.number x (hxs x hx hx') hx' hnumber
    exact sameNumber_of_isNaN (hr.isNaN_iff.mpr hall) hnumber
  · have hr' : ¬r.isNaN := hr.number s (hys s hs.mem hnumber) hnumber
    refine sameNumber_of_place_eq hr' hnumber (hrank ?_)
    exact Int.le_antisymm (hr.rank_le s (hys s hs.mem hnumber) hnumber)
      (hs.rank_le r (hxs r hr.mem hr') hr')

end Binary64

/-! ## The two functions -/

namespace StandardFunction

open Binary64

/-- A function whose value is one of the numbers of its arguments that no other one beats. It is not
a number only if none of these is; the order of the arguments does not count, nor do further ones
that are not numbers or repeat a number. -/
structure Unbeaten (f : List Value → Value) (beats : Float → Float → Prop) : Prop where
  number : ∀ vs, ∃ x, f vs = .number x
  isNaN_iff : ∀ {vs : List Value} {x : Float}, f vs = .number x →
    (x.isNaN ↔ ∀ v ∈ vs, v.toNumber.isNaN)
  mem : ∀ {vs : List Value} {x : Float}, f vs = .number x → ¬x.isNaN → ∃ v ∈ vs, v.toNumber = x
  not_beats : ∀ {vs : List Value} {x : Float}, f vs = .number x → ∀ v ∈ vs, ¬beats v.toNumber x
  perm : ∀ {vs ws : List Value} {x y : Float}, vs.Perm ws →
    f vs = .number x → f ws = .number y → SameNumber x y
  added : ∀ {vs added ws : List Value} {x y : Float}, (vs ++ added).Perm ws →
    (∀ a ∈ added, a.toNumber.isNaN ∨ ∃ v ∈ vs, v.toNumber = a.toNumber) →
    f vs = .number x → f ws = .number y → ¬x.isNaN → SameNumber x y

theorem isNaN_foldNumbers_nil (pick : Float → Float → Float) : (foldNumbers pick []).isNaN := by
  change nan.isNaN
  decide

section Fold

variable {rank : Float → Int} {pick : Float → Float → Float} (h : Picks rank pick)
include h

theorem leads_foldNumbers {vs : List Value} (hvs : vs ≠ []) :
    Leads rank (vs.map Value.toNumber) (foldNumbers pick vs) := by
  obtain ⟨v, vs, rfl⟩ := List.exists_cons_of_ne_nil hvs
  exact h.leads_foldl (vs.map Value.toNumber) v.toNumber

theorem isNaN_foldNumbers_iff (vs : List Value) :
    (foldNumbers pick vs).isNaN ↔ ∀ v ∈ vs, v.toNumber.isNaN := by
  by_cases hvs : vs = []
  · subst hvs
    exact iff_of_true (isNaN_foldNumbers_nil pick) (by simp)
  · rw [(leads_foldNumbers h hvs).isNaN_iff, List.forall_mem_map]

/-- Folding goes by the set of numbers among the arguments. -/
theorem sameNumber_foldNumbers (hrank : ∀ {x y : Float}, rank x = rank y → place x = place y)
    {vs ws : List Value} (hvs : vs ≠ []) (hws : ws ≠ [])
    (hmem : ∀ v ∈ vs, ¬v.toNumber.isNaN → ∃ w ∈ ws, w.toNumber = v.toNumber)
    (hmem' : ∀ w ∈ ws, ¬w.toNumber.isNaN → ∃ v ∈ vs, v.toNumber = w.toNumber) :
    SameNumber (foldNumbers pick vs) (foldNumbers pick ws) := by
  refine (leads_foldNumbers h hvs).sameNumber (leads_foldNumbers h hws) hrank ?_ ?_
  · rw [List.forall_mem_map]
    exact fun v hv hnumber ↦ List.mem_map.mpr (hmem v hv hnumber)
  · rw [List.forall_mem_map]
    exact fun w hw hnumber ↦ List.mem_map.mpr (hmem' w hw hnumber)

theorem unbeaten_foldNumbers (hrank : ∀ {x y : Float}, rank x = rank y → place x = place y)
    {beats : Float → Float → Prop}
    (hbeats : ∀ {x y : Float}, beats x y → ¬x.isNaN ∧ ¬y.isNaN ∧ rank x < rank y) :
    Unbeaten (fun vs ↦ .number (foldNumbers pick vs)) beats where
  number vs := ⟨_, rfl⟩
  isNaN_iff := by
    rintro vs _ ⟨⟩
    exact isNaN_foldNumbers_iff h vs
  mem := by
    rintro vs _ ⟨⟩ hnumber
    have hvs : vs ≠ [] := by
      rintro rfl
      exact hnumber (isNaN_foldNumbers_nil pick)
    exact List.mem_map.mp (leads_foldNumbers h hvs).mem
  not_beats := by
    rintro vs _ ⟨⟩ v hv hbeaten
    obtain ⟨hv', -, hlt⟩ := hbeats hbeaten
    have hle := (leads_foldNumbers h (List.ne_nil_of_mem hv)).rank_le _ (List.mem_map_of_mem hv) hv'
    omega
  perm := by
    rintro vs ws _ _ hperm ⟨⟩ ⟨⟩
    by_cases hvs : vs = []
    · subst hvs
      rw [List.nil_perm.mp hperm]
      exact .inl rfl
    · refine sameNumber_foldNumbers h hrank hvs (fun hws ↦ hvs ?_) ?_ ?_
      · exact List.perm_nil.mp (hws ▸ hperm)
      · exact fun v hv _ ↦ ⟨v, hperm.mem_iff.mp hv, rfl⟩
      · exact fun w hw _ ↦ ⟨w, hperm.mem_iff.mpr hw, rfl⟩
  added := by
    rintro vs added ws _ _ hperm hadded ⟨⟩ ⟨⟩ hnumber
    have hvs : vs ≠ [] := by
      rintro rfl
      exact hnumber (isNaN_foldNumbers_nil pick)
    have hmem (v : Value) (hv : v ∈ vs) : v ∈ ws := hperm.mem_iff.mp (List.mem_append_left _ hv)
    refine sameNumber_foldNumbers h hrank hvs (fun hws ↦ ?_) ?_ ?_
    · obtain ⟨v, hv⟩ := List.exists_mem_of_ne_nil vs hvs
      exact absurd (hmem v hv) (by simp [hws])
    · exact fun v hv _ ↦ ⟨v, hmem v hv, rfl⟩
    · intro w hw hw'
      rcases List.mem_append.mp (hperm.mem_iff.mpr hw) with hv | ha
      · exact ⟨w, hv, rfl⟩
      · exact (hadded w ha).resolve_left hw'

end Fold

/-- **`min` and `max` come to the least and the greatest number among their arguments**, whatever
their order and however often they are repeated. -/
theorem unbeaten_min_max : Unbeaten min.apply (· < ·) ∧ Unbeaten max.apply (· > ·) := by
  constructor
  · refine unbeaten_foldNumbers picks_lesser id fun hlt ↦ ?_
    obtain ⟨hx, hy⟩ := numbers_of_lt hlt
    exact ⟨hx, hy, (lt_iff_place hx hy).mp hlt⟩
  · refine unbeaten_foldNumbers picks_greater Int.neg_inj.mp fun hlt ↦ ?_
    obtain ⟨hy, hx⟩ := numbers_of_lt hlt
    exact ⟨hx, hy, Int.neg_lt_neg ((lt_iff_place hy hx).mp hlt)⟩

example : min.apply [.number nan, .number 2, .boolean true] = .number 1 := by rfl

end StandardFunction

end Formula
