import Formula.Proofs.Blame

/-!
# Writing a tree

The tokens of a tree, with parentheses only where they are needed. Where that is depends on the
place in which a tree stands and on how tightly the tree holds together, so both are put on one
scale, which follows the grammar:

* `0` an expression, `1` a condition, `2` a term, `3` a comparison, `4` a sum, `5` a product, `6` an
  operand.

A tree needs parentheses in a place that asks for more than its own strength (`Tree.strength`). The
left operand of a joint stands in a place of the joint's own level, so that rows are read from the
left; the right one must be tighter. A comparison is no row, and both of its operands are sums.

Only the offsets of names matter to a tree. A writing leaves the others open, which is why it is a
relation (`Plain`, `Written`) and no function; every tree whose names are no keywords has one
(`exists_written`).
-/

namespace Formula

open Reader

/-! ## Marks -/

theorem Joint.mark_injective {j j' : Joint} (h : j.mark = j'.mark) : j = j' := by
  cases j <;> cases j' <;> simp_all [mark]

/-- The token that a literal is. -/
def Value.mark : Value → TokenKind
  | number x => .number x
  | text s => .text s
  | boolean b => .boolean b

/-! ## Places -/

namespace Level

/-- The place of a level on the scale. -/
def position : Level → Nat
  | disjunction => 0
  | conjunction => 1
  | comparison => 3
  | sum => 4
  | product => 5

theorem position_le (l : Level) : l.position ≤ 5 := by
  cases l <;> decide

/-- The place of a left operand. -/
def leftPosition : Level → Nat
  | comparison => 4
  | l => l.position

theorem position_le_leftPosition (l : Level) : l.position ≤ l.leftPosition := by
  cases l <;> decide

theorem leftPosition_le (l : Level) : l.leftPosition ≤ 6 := by
  cases l <;> decide

theorem leftPosition_of_ne {l : Level} (h : l ≠ comparison) : l.leftPosition = l.position := by
  cases l with
  | comparison => exact absurd rfl h
  | _ => rfl

theorem position_injective {l l' : Level} (h : l.position = l'.position) : l = l' := by
  cases l <;> cases l' <;> first | rfl | exact absurd h (by decide)

/-- No joint is a term. -/
theorem position_ne_two (l : Level) : l.position ≠ 2 := by
  cases l <;> decide

/-- The place of a right operand. -/
def rightPosition (l : Level) : Nat := l.position + 1

end Level

namespace Tree

/-- The tightest place in which a tree needs no parentheses. -/
def strength : Tree → Nat
  | joined j _ _ => j.level.position
  | not _ => 2
  | literal _ | named _ _ | call _ _ _ => 6

theorem strength_le (t : Tree) : t.strength ≤ 6 := by
  cases t with
  | joined j left right => exact Nat.le_succ_of_le j.level.position_le
  | not operand => exact (by omega : 2 ≤ 6)
  | _ => exact Nat.le_refl 6

/-- Whether a tree needs parentheses in a place. -/
def needsGroup (p : Nat) (t : Tree) : Bool := t.strength < p

mutual

/-- How deep the inside of a tree nests when it is written. -/
def inside : Tree → Nat
  | literal _ | named _ _ => 0
  | call _ arguments _ => insideAll arguments
  | not operand => 1 + ((operand.needsGroup 2).toNat + inside operand)
  | joined j left right =>
    max ((left.needsGroup j.level.leftPosition).toNat + inside left)
      ((right.needsGroup j.level.rightPosition).toNat + inside right)

/-- How deep a list of arguments nests. It is one level of its own, unless it is empty. -/
def insideAll : List Tree → Nat
  | [] => 0
  | t :: ts => max (1 + inside t) (insideAll ts)

end

/-- How many groups, lists of arguments and `not` are open at once in a tree written in a place. -/
def nesting (p : Nat) (t : Tree) : Nat := (t.needsGroup p).toNat + t.inside

theorem nesting_zero (t : Tree) : t.nesting 0 = t.inside := by
  rw [nesting, needsGroup, decide_eq_false (Nat.not_lt_zero _), Bool.toNat_false, Nat.zero_add]

/-- The names that mean something else where an operand is expected or behind it. -/
def reserved : List String := ["and", "or", "not"]

mutual

/-- Whether no variable and no function of a tree is called like a keyword. -/
def avoidsKeywords : Tree → Bool
  | literal _ => true
  | named name _ => name ∉ reserved
  | call name arguments _ => name ∉ reserved && avoidsKeywordsAll arguments
  | not operand => avoidsKeywords operand
  | joined _ left right => avoidsKeywords left && avoidsKeywords right

def avoidsKeywordsAll : List Tree → Bool
  | [] => true
  | t :: ts => avoidsKeywords t && avoidsKeywordsAll ts

end

/-! ## Writings -/

mutual

/-- A writing without parentheses around it. -/
inductive Plain : Tree → List Token → Prop
  | literal (v : Value) (n : Nat) : Plain (.literal v) [⟨v.mark, n⟩]
  | named {name : String} (offset : Nat) (hname : name ∉ reserved) :
    Plain (.named name offset) [⟨.identifier name, offset⟩]
  | call {name : String} (offset : Nat) {arguments : List Tree} {us : List Token} (n n' : Nat)
    (hname : name ∉ reserved) (harguments : WrittenAll arguments us) :
    Plain (.call name arguments offset)
      (⟨.identifier name, offset⟩ :: ⟨.openParen, n⟩ :: (us ++ [⟨.closeParen, n'⟩]))
  | not {operand : Tree} {us : List Token} (n : Nat) (hoperand : Written 2 operand us) :
    Plain (.not operand) (⟨.identifier "not", n⟩ :: us)
  | joined {j : Joint} {left right : Tree} {us us' : List Token} (n : Nat)
    (hleft : Written j.level.leftPosition left us)
    (hright : Written j.level.rightPosition right us') :
    Plain (.joined j left right) (us ++ ⟨j.mark, n⟩ :: us')

/-- A writing in a place, with parentheses if it needs them. -/
inductive Written : Nat → Tree → List Token → Prop
  | plain {p : Nat} {t : Tree} {ts : List Token} (hp : t.needsGroup p = false) (h : Plain t ts) :
    Written p t ts
  | group {p : Nat} {t : Tree} {ts : List Token} (n n' : Nat) (hp : t.needsGroup p)
    (h : Plain t ts) : Written p t (⟨.openParen, n⟩ :: (ts ++ [⟨.closeParen, n'⟩]))

/-- Arguments with commas between them. -/
inductive WrittenAll : List Tree → List Token → Prop
  | none : WrittenAll [] []
  | one {t : Tree} {us : List Token} (h : Written 0 t us) : WrittenAll [t] us
  | more {t t' : Tree} {ts : List Tree} {us us' : List Token} (n : Nat) (h : Written 0 t us)
    (hmore : WrittenAll (t' :: ts) us') : WrittenAll (t :: t' :: ts) (us ++ ⟨.comma, n⟩ :: us')

end

/-- A tree that can be written can be written anywhere. -/
theorem exists_written {t : Tree} {ts : List Token} (h : Plain t ts) (p : Nat) :
    ∃ us, Written p t us := by
  cases hp : t.needsGroup p with
  | false => exact ⟨ts, .plain hp h⟩
  | true => exact ⟨_, .group 0 0 hp h⟩

mutual

/-- **Every tree whose names are no keywords can be written.** -/
theorem exists_plain : ∀ t : Tree, t.avoidsKeywords → ∃ ts, Plain t ts
  | literal v, _ => ⟨_, .literal v 0⟩
  | named name offset, h => ⟨_, .named offset (by simpa [avoidsKeywords] using h)⟩
  | call name arguments offset, h => by
    simp only [avoidsKeywords, Bool.and_eq_true, decide_eq_true_eq] at h
    obtain ⟨us, hus⟩ := exists_writtenAll arguments h.2
    exact ⟨_, .call offset 0 0 h.1 hus⟩
  | not operand, h => by
    rw [avoidsKeywords] at h
    obtain ⟨ts, hts⟩ := exists_plain operand h
    obtain ⟨us, hus⟩ := exists_written hts 2
    exact ⟨_, .not 0 hus⟩
  | joined j left right, h => by
    simp only [avoidsKeywords, Bool.and_eq_true] at h
    obtain ⟨ts, hts⟩ := exists_plain left h.1
    obtain ⟨ts', hts'⟩ := exists_plain right h.2
    obtain ⟨us, hus⟩ := exists_written hts j.level.leftPosition
    obtain ⟨us', hus'⟩ := exists_written hts' j.level.rightPosition
    exact ⟨_, .joined 0 hus hus'⟩

theorem exists_writtenAll : ∀ ts : List Tree, avoidsKeywordsAll ts → ∃ us, WrittenAll ts us
  | [], _ => ⟨[], .none⟩
  | [t], h => by
    simp only [avoidsKeywordsAll, Bool.and_eq_true] at h
    obtain ⟨ts, hts⟩ := exists_plain t h.1
    obtain ⟨us, hus⟩ := exists_written hts 0
    exact ⟨us, .one hus⟩
  | t :: t' :: ts, h => by
    rw [avoidsKeywordsAll, Bool.and_eq_true] at h
    obtain ⟨vs, hvs⟩ := exists_plain t h.1
    obtain ⟨us, hus⟩ := exists_written hvs 0
    obtain ⟨us', hus'⟩ := exists_writtenAll (t' :: ts) h.2
    exact ⟨_, .more 0 hus hus'⟩

end

/-! ## What a writing looks like -/

/-- What a writing begins with. A tree that is tighter than a `not` does not begin with one. -/
structure Opens (tight : Prop) (ts : List Token) : Prop where
  beginsOperand : (front ts).beginsOperand
  not_keyword : tight → (front ts).isKeyword "not" = false

theorem Opens.ne_nil {tight : Prop} {ts : List Token} (h : Opens tight ts) : ts ≠ [] := by
  rintro rfl
  exact absurd h.beginsOperand (by simp [front, TokenKind.beginsOperand])

theorem Opens.append {tight : Prop} {ts : List Token} (h : Opens tight ts) (us : List Token) :
    Opens tight (ts ++ us) := by
  cases ts with
  | nil => exact absurd rfl h.ne_nil
  | cons t ts => exact ⟨h.beginsOperand, h.not_keyword⟩

theorem Opens.imp {tight tight' : Prop} {ts : List Token} (h : Opens tight ts)
    (htight : tight' → tight) : Opens tight' ts :=
  ⟨h.beginsOperand, fun h' ↦ h.not_keyword (htight h')⟩

theorem opens_identifier {name : String} (offset : Nat) (ts : List Token) (tight : Prop)
    (hname : name ∉ reserved) : Opens tight (⟨.identifier name, offset⟩ :: ts) := by
  refine ⟨rfl, fun _ ↦ beq_eq_false_iff_ne.mpr ?_⟩
  rintro rfl
  exact hname (by simp [reserved])

theorem opens_written {p : Nat} {t : Tree} {ts : List Token}
    (ht : ∀ us, Plain t us → Opens (3 ≤ t.strength) us) (h : Written p t ts) :
    Opens (3 ≤ p) ts := by
  cases h with
  | plain hp h =>
    rw [needsGroup, decide_eq_false_iff_not, Nat.not_lt] at hp
    exact (ht ts h).imp fun h3 ↦ Nat.le_trans h3 hp
  | group n n' hp h => exact ⟨rfl, fun _ ↦ rfl⟩

theorem opens_plain : ∀ (t : Tree) (ts : List Token), Plain t ts → Opens (3 ≤ t.strength) ts
  | literal v, _, .literal _ n => by
    cases v <;> exact ⟨rfl, fun _ ↦ rfl⟩
  | named name offset, _, .named _ hname => opens_identifier offset [] _ hname
  | call name arguments offset, _, .call _ n n' hname _ => opens_identifier offset _ _ hname
  | not operand, _, .not n hoperand => ⟨rfl, fun h ↦ absurd h (by simp [strength])⟩
  | joined j left right, _, .joined n hleft hright => by
    -- a joint begins with its left operand, whose place is at least as tight
    have hopens := opens_written (opens_plain left) hleft
    exact (hopens.imp fun h3 ↦ Nat.le_trans h3 j.level.position_le_leftPosition).append _

/-- No token of a writing is an end marker. -/
def Endless (ts : List Token) : Prop := ∀ t ∈ ts, t.kind ≠ .endOfInput

theorem Endless.append {ts us : List Token} (hts : Endless ts) (hus : Endless us) :
    Endless (ts ++ us) := by
  intro t ht
  rcases List.mem_append.mp ht with ht | ht
  · exact hts t ht
  · exact hus t ht

theorem Endless.cons {k : TokenKind} (hk : k ≠ .endOfInput) (n : Nat) {us : List Token}
    (hus : Endless us) : Endless (⟨k, n⟩ :: us) := by
  intro t ht
  rcases List.mem_cons.mp ht with rfl | ht
  · exact hk
  · exact hus t ht

theorem endless_nil : Endless [] := fun _ ht ↦ absurd ht List.not_mem_nil

theorem endless_written {p : Nat} {t : Tree} {ts : List Token}
    (ht : ∀ us, Plain t us → Endless us) (h : Written p t ts) : Endless ts := by
  cases h with
  | plain hp h => exact ht ts h
  | group n n' hp h =>
    exact .cons (by simp) n ((ht _ h).append (.cons (by simp) n' endless_nil))

mutual

theorem endless_plain : ∀ (t : Tree) (ts : List Token), Plain t ts → Endless ts
  | literal v, _, .literal _ n => .cons (by cases v <;> simp [Value.mark]) n endless_nil
  | named name offset, _, .named _ hname => .cons (by simp) offset endless_nil
  | call name arguments offset, _, .call _ n n' hname h => by
    have harguments := endless_writtenAll arguments _ h
    exact .cons (by simp) _ (.cons (by simp) _
      (harguments.append (.cons (by simp) n' endless_nil)))
  | not operand, _, .not n h => .cons (by simp) n (endless_written (endless_plain operand) h)
  | joined j left right, _, .joined n hleft hright =>
    (endless_written (endless_plain left) hleft).append
      (.cons (by cases j <;> simp [Joint.mark]) n (endless_written (endless_plain right) hright))

theorem endless_writtenAll : ∀ (ts : List Tree) (us : List Token), WrittenAll ts us → Endless us
  | [], _, .none => endless_nil
  | [t], _, .one h => endless_written (endless_plain t) h
  | t :: t' :: ts, _, .more n h hmore =>
    (endless_written (endless_plain t) h).append
      (.cons (by simp) n (endless_writtenAll (t' :: ts) _ hmore))

end

/-- In front of its first end marker there is just the writing. -/
theorem Endless.beforeEnd_append {ts : List Token} (h : Endless ts) (n : Nat) :
    beforeEnd (ts ++ [⟨.endOfInput, n⟩]) = ts := by
  rw [beforeEnd, List.takeWhile_append_of_pos fun t ht ↦ bne_iff_ne.mpr (h t ht)]
  simp

end Tree

end Formula
