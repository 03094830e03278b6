import Formula.Proofs.TwoPhases
import Formula.Proofs.Writing

/-!
# Reading back what was written

Whatever way a tree is written, the grammar reads that tree and nothing more, provided that what
comes behind is not part of it (`Stops`).

## The two statements

That a place reads a tree (`Reads`) is not enough for an induction. In `a - b - c` the left operand
`a - b` is never read by itself: the row reads `a` and goes on, and when it has come to the second
joint, `a - b` is only what it has so far. So for a row there is a second statement, in which the
row is left running (`Leads`): reading the tree and what is behind it is the same as going on from
the tree at what is behind it. Both pass from a tighter place to a looser one.
-/

namespace Formula

open Formula.Tree Reader

namespace Grammar

variable (g : Grammar)

/-- What is read in a place inside of which `d` more levels may be opened. -/
def reader (d : Nat) : Nat → Reader Tree
  | 0 => expressionOver (g.term d)
  | 1 => row .conjunction (g.term d)
  | 2 => g.term d
  | 3 => g.comparison (g.expression d)
  | 4 => g.sum (g.expression d)
  | 5 => row .product (g.operand (g.expression d))
  | _ => g.operand (g.expression d)

theorem reader_row (d : Nat) {l : Level} (hl : l ≠ .comparison) :
    g.reader d l.position = row l (g.reader d l.rightPosition) := by
  cases l with
  | comparison => exact absurd rfl hl
  | _ => rfl

/-- What comes behind a tree does not belong to a tree in this place. -/
structure Stops (p : Nat) (rest : List Token) : Prop where
  ne_openParen : front rest ≠ .openParen
  ne_mark : ∀ j : Joint, p ≤ j.level.position → front rest ≠ j.mark

variable {g} {d p q : Nat} {t : Tree} {ts rest : List Token}

theorem Stops.mono (h : Stops p rest) (hpq : p ≤ q) : Stops q rest :=
  ⟨h.ne_openParen, fun j hj ↦ h.ne_mark j (Nat.le_trans hpq hj)⟩

theorem Stops.atLevel? (h : Stops p rest) {l : Level} (hl : p ≤ l.position) :
    Joint.atLevel? l (front rest) = none := by
  cases hj : Joint.atLevel? l (front rest) with
  | none => rfl
  | some j =>
    obtain ⟨rfl, hmark⟩ := Joint.eq_of_atLevel? hj
    exact absurd hmark (h.ne_mark j hl)

/-- Only a joint and an opening bracket go on with a tree. -/
theorem stops_of_ne (hopen : front rest ≠ .openParen) (hmark : ∀ j : Joint, front rest ≠ j.mark) :
    Stops p rest :=
  ⟨hopen, fun j _ ↦ hmark j⟩

theorem stops_nil : Stops p [] := by
  refine stops_of_ne (by simp [front]) fun j ↦ ?_
  cases j <;> simp [front, Joint.mark]

theorem stops_closeParen (h : front rest = .closeParen) : Stops p rest := by
  refine stops_of_ne (by simp [h]) fun j ↦ ?_
  cases j <;> simp [h, Joint.mark]

theorem stops_comma (n : Nat) : Stops p (⟨.comma, n⟩ :: rest) := by
  refine stops_of_ne (by simp [front]) fun j ↦ ?_
  cases j <;> simp [front, Joint.mark]

/-- A joint ends what is tighter than it. -/
theorem stops_mark {j : Joint} (hj : j.level.position < p) (n : Nat) :
    Stops p (⟨j.mark, n⟩ :: rest) := by
  refine ⟨by cases j <;> simp [front, Joint.mark], fun j' hj' hmark ↦ ?_⟩
  obtain rfl := Joint.mark_injective hmark
  omega

/-! ## Places -/

/-- A tree is read in a place, and nothing behind it. -/
def Reads (g : Grammar) (d p : Nat) (t : Tree) (ts : List Token) : Prop :=
  ∀ rest, Stops p rest → g.reader d p (ts ++ rest) = .ok ⟨t, rest, 0⟩

/-- A row reads a tree and goes on behind it. -/
def Leads (g : Grammar) (d : Nat) (l : Level) (t : Tree) (ts : List Token) : Prop :=
  ∀ rest, Stops l.rightPosition rest → ∃ n, rest.length ≤ n ∧
    g.reader d l.position (ts ++ rest) = rowFrom l (g.reader d l.rightPosition) n t rest

/-- What reading does with a tree in a place. -/
structure Fits (g : Grammar) (d p : Nat) (t : Tree) (ts : List Token) : Prop where
  reads : Reads g d p t ts
  leads : ∀ l ≠ Level.comparison, l.position = p → Leads g d l t ts

/-- What is read in the place of an operand of a row leads the row. -/
theorem Reads.leads {l : Level} (hl : l ≠ .comparison) (h : Reads g d l.rightPosition t ts) :
    Leads g d l t ts := by
  intro rest hrest
  refine ⟨(ts ++ rest).length, by simp, ?_⟩
  rw [g.reader_row d hl]
  simp only [row, bind_apply, h rest hrest, andThen_ok_zero]

/-- A row that was led by a tree ends behind it. -/
theorem Leads.reads {l : Level} (h : Leads g d l t ts) : Reads g d l.position t ts := by
  intro rest hrest
  obtain ⟨n, -, hreader⟩ := h rest (hrest.mono (Nat.le_succ _))
  rw [hreader, rowFrom_end (hrest.atLevel? (Nat.le_refl _))]

/-- A sum is a comparison. -/
theorem Reads.comparison (h : Reads g d 4 t ts) : Reads g d 3 t ts := by
  intro rest hrest
  have hsum : g.sum (g.expression d) (ts ++ rest) = .ok ⟨t, rest, 0⟩ :=
    h rest (hrest.mono (by omega))
  have hend : Joint.atLevel? .comparison (front rest) = none := hrest.atLevel? (Nat.le_refl 3)
  rw [reader, Grammar.comparison, bind_apply, hsum, andThen_ok_zero, rowFrom_end hend]

/-- A comparison is a term, if it does not begin with a `not`. -/
theorem Reads.term (hopens : Opens True ts) (h : Reads g d 3 t ts) : Reads g d 2 t ts := by
  intro rest hrest
  have hnot := (hopens.append rest).not_keyword trivial
  have hcomparison : g.comparison (g.expression d) (ts ++ rest) = .ok ⟨t, rest, 0⟩ :=
    h rest (hrest.mono (by omega))
  rw [reader, g.term_eq, termOver, if_neg (by simp [hnot]), hcomparison]

theorem Fits.succ (hp : p < 6) (hopens : Opens (p = 2) ts) (h : Fits g d (p + 1) t ts) :
    Fits g d p t ts := by
  have hleads : ∀ l ≠ Level.comparison, l.position = p → Leads g d l t ts := by
    rintro l hl rfl
    exact h.reads.leads hl
  refine ⟨?_, hleads⟩
  -- a row of one operand for the levels that are rows, and two places that pass a tree through
  match p, hp with
  | 0, _ => exact (hleads .disjunction (by simp) rfl).reads
  | 1, _ => exact (hleads .conjunction (by simp) rfl).reads
  | 2, _ => exact h.reads.term (hopens.imp fun _ ↦ rfl)
  | 3, _ => exact h.reads.comparison
  | 4, _ => exact (hleads .sum (by simp) rfl).reads
  | 5, _ => exact (hleads .product (by simp) rfl).reads

/-- **What fits a place fits every looser one.** -/
theorem Fits.lower (hpq : p ≤ q) (hq : q ≤ 6) (hopens : Opens (3 ≤ q) ts) (h : Fits g d q t ts) :
    Fits g d p t ts := by
  induction q with
  | zero =>
    obtain rfl := Nat.le_zero.mp hpq
    exact h
  | succ q ih =>
    rcases Nat.le_succ_iff.mp hpq with hpq | rfl
    · have hq' : Fits g d q t ts := h.succ (by omega) (hopens.imp fun hq ↦ by omega)
      exact ih hpq (by omega) (hopens.imp fun hq ↦ by omega) hq'
    · exact h

/-! ## Joints -/

/-- A joint and its right operand, behind what a row has so far. -/
theorem rowFrom_mark {operand : Reader Tree} {j : Joint} {left right : Tree} {us : List Token}
    (n m : Nat) (hright : operand (us ++ rest) = .ok ⟨right, rest, 0⟩) :
    rowFrom j.level operand (m + 1) left (⟨j.mark, n⟩ :: (us ++ rest))
      = rowFrom j.level operand m (.joined j left right) rest := by
  have hj : Joint.atLevel? j.level (front (⟨j.mark, n⟩ :: (us ++ rest))) = some j :=
    j.atLevel?_mark
  rw [rowFrom_joint hj, List.tail_cons, bind_apply, within_of_ok _ hright, andThen_ok_zero]

/-- A row that was led by the left operand of a joint is led by the joint. -/
theorem Leads.joined {j : Joint} {left right : Tree} {us us' : List Token} (n : Nat)
    (hleft : Leads g d j.level left us) (hright : Reads g d j.level.rightPosition right us') :
    Leads g d j.level (.joined j left right) (us ++ ⟨j.mark, n⟩ :: us') := by
  intro rest hrest
  obtain ⟨m, hm, hreader⟩ := hleft (⟨j.mark, n⟩ :: (us' ++ rest))
    (stops_mark (Nat.lt_succ_self _) n)
  obtain ⟨m, rfl⟩ : ∃ m', m = m' + 1 := ⟨m - 1, by simp at hm; omega⟩
  refine ⟨m, ?_, ?_⟩
  · simp only [List.length_cons, List.length_append] at hm
    omega
  · rw [List.append_assoc, List.cons_append, hreader, rowFrom_mark n m (hright rest hrest)]

/-- Two sums with a comparison between them. -/
theorem Reads.compared {op : Comparison} {left right : Tree} {us us' : List Token} (n : Nat)
    (hleft : Reads g d 4 left us) (hright : Reads g d 4 right us') :
    Reads g d 3 (.joined (.comparison op) left right)
      (us ++ ⟨(Joint.comparison op).mark, n⟩ :: us') := by
  intro rest hrest
  have hsum : g.sum (g.expression d) (us ++ ⟨(Joint.comparison op).mark, n⟩ :: (us' ++ rest))
      = .ok ⟨left, ⟨(Joint.comparison op).mark, n⟩ :: (us' ++ rest), 0⟩ :=
    hleft _ (stops_mark (Nat.lt_succ_self 3) n)
  have hsum' : g.sum (g.expression d) (us' ++ rest) = .ok ⟨right, rest, 0⟩ :=
    hright rest (hrest.mono (by omega))
  have hround : rowFrom (Joint.comparison op).level (g.sum (g.expression d)) (0 + 1) left
      (⟨(Joint.comparison op).mark, n⟩ :: (us' ++ rest))
      = .ok ⟨.joined (.comparison op) left right, rest, 0⟩ := rowFrom_mark n 0 hsum'
  rw [List.append_assoc, List.cons_append, reader, Grammar.comparison, bind_apply, hsum,
    andThen_ok_zero]
  exact hround

/-! ## Operands -/

/-- A closing bracket that is there is read. -/
theorem closing_closeParen (frames : List Frame) (n : Nat) : (do
      within frames g.closing
      return t : Reader Tree) (⟨.closeParen, n⟩ :: rest) = .ok ⟨t, rest, 0⟩ := rfl

/-- A tree in parentheses is an operand. -/
theorem Reads.group (n n' : Nat) (h : Reads g d 0 t ts) :
    Reads g (d + 1) 6 t (⟨.openParen, n⟩ :: (ts ++ [⟨.closeParen, n'⟩])) := by
  intro rest hrest
  have hgroup : g.expression (d + 1) (ts ++ ⟨.closeParen, n'⟩ :: rest)
      = .ok ⟨t, ⟨.closeParen, n'⟩ :: rest, 0⟩ := h _ (stops_closeParen rfl)
  have hbind : (do
      let t ← g.expression (d + 1)
      within [.after t] g.closing
      return t : Reader Tree) (ts ++ ⟨.closeParen, n'⟩ :: rest) = .ok ⟨t, rest, 0⟩ := by
    rw [bind_apply, hgroup, andThen_ok_zero, closing_closeParen]
  rw [List.cons_append, List.append_assoc, List.singleton_append]
  exact hbind

/-- A term behind a `not` is a term. -/
theorem Reads.not (n : Nat) (h : Reads g d 2 t ts) :
    Reads g (d + 1) 2 (.not t) (⟨.identifier "not", n⟩ :: ts) := by
  intro rest hrest
  have hnegated : g.negated (d + 1) (ts ++ rest) = .ok ⟨t, rest, 0⟩ := h rest hrest
  have hbind : (do
      let t ← g.negated (d + 1)
      return Tree.not t : Reader Tree) (ts ++ rest) = .ok ⟨.not t, rest, 0⟩ := by
    rw [bind_apply, hnegated, andThen_ok_zero]
    rfl
  rw [List.cons_append, reader, g.term_eq]
  exact hbind

/-- A name is an operand if no opening bracket is behind it. -/
theorem reads_named (g : Grammar) (d : Nat) (name : String) (offset : Nat) :
    Reads g d 6 (.named name offset) [⟨.identifier name, offset⟩] := by
  intro rest hrest
  have hne := hrest.ne_openParen
  have hoperand : g.operand (g.expression d) (⟨.identifier name, offset⟩ :: rest)
      = .ok ⟨.named name offset, rest, 0⟩ := by
    simp only [operand, front, List.tail_cons]
    split
    · next hopen => exact absurd hopen hne
    · rfl
  exact hoperand

/-- A name and arguments in brackets are an operand. -/
theorem reads_call {name : String} {offset : Nat} {as : List Tree} {us : List Token} (n n' : Nat)
    (has : ∀ (rest : List Token) (m : Nat), front rest = .closeParen →
      (us ++ rest).length ≤ m →
      Reader.arguments (g.expression d) m (us ++ rest) = .ok ⟨as, rest, 0⟩) :
    Reads g d 6 (.call name as offset)
      (⟨.identifier name, offset⟩ :: ⟨.openParen, n⟩ :: (us ++ [⟨.closeParen, n'⟩])) := by
  intro rest hrest
  have hbind : ∀ m, (us ++ ⟨.closeParen, n'⟩ :: rest).length ≤ m → (do
      let as ← Reader.arguments (g.expression d) m
      within (as.map .after) g.closing
      return Tree.call name as offset : Reader Tree) (us ++ ⟨.closeParen, n'⟩ :: rest)
      = .ok ⟨.call name as offset, rest, 0⟩ := by
    intro m hm
    rw [bind_apply, has _ m rfl hm, andThen_ok_zero, closing_closeParen]
  rw [List.cons_append, List.cons_append, List.append_assoc, List.singleton_append]
  exact hbind _ (by simp only [List.length_cons]; omega)

/-- One argument is read, with the comma behind it if there is one. -/
theorem arguments_written {as : List Tree} {rest' : List Token} {m : Nat}
    (hopens : Opens (3 ≤ 0) ts) (h : Reads g d 0 t ts) (hstops : Stops 0 rest)
    (hothers : Reader.arguments (g.expression (d + 1)) m (afterComma rest) = .ok ⟨as, rest', 0⟩) :
    Reader.arguments (g.expression (d + 1)) (m + 1) (ts ++ rest) = .ok ⟨t :: as, rest', 0⟩ := by
  have hends : ¬endsArguments (front (ts ++ rest)) := by
    have hbegins := (hopens.append rest).beginsOperand
    intro hends
    cases hfront : front (ts ++ rest) <;> rw [hfront] at hbegins hends <;>
      first
        | exact absurd hbegins (by decide)
        | exact absurd hends (by simp [endsArguments])
  have hfirst : g.expression (d + 1) (ts ++ rest) = .ok ⟨t, rest, 0⟩ := h rest hstops
  rw [arguments_more hends, bind_apply, hfirst, andThen_ok_zero, bind_apply, comma,
    andThen_ok_zero, bind_apply, within_of_ok _ hothers, andThen_ok_zero]
  rfl

/-! ## Trees -/

/-- A tree that is written in a place fits there, if it fits the place of its own strength. -/
theorem fits_written (hp : p ≤ 6) (hd : t.nesting p ≤ d)
    (ht : ∀ us d, t.inside ≤ d → Plain t us → Fits g d t.strength t us) (h : Written p t ts) :
    Fits g d p t ts := by
  rw [nesting] at hd
  cases h with
  | plain hplace hplain =>
    rw [hplace, Bool.toNat_false, Nat.zero_add] at hd
    rw [needsGroup, decide_eq_false_iff_not, Nat.not_lt] at hplace
    exact (ht ts d hd hplain).lower hplace t.strength_le (opens_plain t ts hplain)
  | @group _ _ us n n' hplace hplain =>
    rw [hplace, Bool.toNat_true] at hd
    obtain ⟨d, rfl⟩ : ∃ d', d = d' + 1 := ⟨d - 1, by omega⟩
    -- inside the parentheses any tree fits, and with them it is an operand
    have hinner : Fits g d 0 t us := (ht us d (by omega) hplain).lower (Nat.zero_le _)
      t.strength_le (opens_plain t us hplain)
    have hgroup : Fits g (d + 1) 6 t (⟨.openParen, n⟩ :: (us ++ [⟨.closeParen, n'⟩])) := by
      refine ⟨hinner.reads.group n n', fun l _ hl ↦ absurd l.position_le ?_⟩
      omega
    exact hgroup.lower hp (Nat.le_refl 6) ⟨rfl, fun _ ↦ rfl⟩

/-- An operand is not the operand of a row. -/
theorem Fits.operand (h : Reads g d 6 t ts) : Fits g d 6 t ts :=
  ⟨h, fun l _ hl ↦ absurd l.position_le (by omega)⟩

/-- Two operands that fit their places with a joint between them. -/
theorem Fits.joined {j : Joint} {left right : Tree} {us us' : List Token} (n : Nat)
    (hleft : Fits g d j.level.leftPosition left us)
    (hright : Fits g d j.level.rightPosition right us') :
    Fits g d j.level.position (.joined j left right) (us ++ ⟨j.mark, n⟩ :: us') := by
  have hrow : j.level ≠ .comparison → Leads g d j.level (.joined j left right)
      (us ++ ⟨j.mark, n⟩ :: us') := fun hl ↦
    (hleft.leads j.level hl (Level.leftPosition_of_ne hl).symm).joined n hright.reads
  refine ⟨?_, fun l hl hposition ↦ ?_⟩
  · cases j with
    -- no row leads a comparison: its left operand stands in the tighter place of a sum
    | comparison op => exact hleft.reads.compared n hright.reads
    | or => exact (hrow (by simp [Joint.level])).reads
    | and => exact (hrow (by simp [Joint.level])).reads
    | arithmetic op => exact (hrow (by cases op <;> decide)).reads
  · obtain rfl := Level.position_injective hposition
    exact hrow hl

mutual

/-- **A tree fits the place of its own strength, in whatever way it is written.** -/
theorem fits_plain : ∀ (t : Tree) (ts : List Token) (d : Nat), t.inside ≤ d → Plain t ts →
    Fits g d t.strength t ts
  | .literal v, _, d, _, .literal _ n => by
    have hreads : Reads g d 6 (.literal v) [⟨v.mark, n⟩] := by
      intro rest hrest
      cases v <;> rfl
    exact .operand hreads
  | .named name offset, _, d, _, .named _ hname => .operand (reads_named g d name offset)
  | .call name arguments offset, _, d, hd, .call _ n n' hname h =>
    .operand (reads_call n n' (reads_arguments arguments _ d hd h))
  | .not operand, _, d, hd, .not n h => by
    have hinside : operand.nesting 2 + 1 ≤ d := by
      rw [inside] at hd
      rw [nesting]
      omega
    obtain ⟨d, rfl⟩ : ∃ d', d = d' + 1 := ⟨d - 1, by omega⟩
    have hoperand : Fits g d 2 operand _ := fits_written (by omega) (by omega)
      (fits_plain operand) h
    exact ⟨hoperand.reads.not n, fun l _ hl ↦ absurd hl l.position_ne_two⟩
  | .joined j left right, _, d, hd, .joined n hleft hright => by
    rw [inside, Nat.max_le] at hd
    have hl : Fits g d j.level.leftPosition left _ := fits_written
      j.level.leftPosition_le hd.1 (fits_plain left) hleft
    have hr : Fits g d j.level.rightPosition right _ := fits_written
      (Nat.succ_le_succ j.level.position_le) hd.2 (fits_plain right) hright
    exact hl.joined n hr

theorem reads_arguments : ∀ (ts : List Tree) (us : List Token) (d : Nat), insideAll ts ≤ d →
    WrittenAll ts us → ∀ (rest : List Token) (m : Nat), front rest = .closeParen →
      (us ++ rest).length ≤ m →
      Reader.arguments (g.expression d) m (us ++ rest) = .ok ⟨ts, rest, 0⟩
  | [], _, d, _, .none => fun rest m hclose _ ↦ arguments_end (by rw [List.nil_append, hclose]; rfl)
  | [t], us, d, hd, .one h => by
    intro rest m hclose hm
    rw [insideAll, Nat.max_le] at hd
    obtain ⟨d, rfl⟩ : ∃ d', d = d' + 1 := ⟨d - 1, by omega⟩
    have hfits : Fits g d 0 t us := fits_written (by omega) (by rw [nesting_zero]; omega)
      (fits_plain t) h
    have hopens := opens_written (opens_plain t) h
    have hpos := List.length_pos_iff.mpr (hopens.append rest).ne_nil
    obtain ⟨m, rfl⟩ : ∃ m', m = m' + 1 := ⟨m - 1, by omega⟩
    -- behind the last argument there is no comma
    have hcomma : afterComma rest = rest := by rw [afterComma, hclose]
    refine arguments_written hopens hfits.reads (stops_closeParen hclose) ?_
    rw [hcomma]
    exact arguments_end (by rw [hclose]; rfl)
  | t :: t' :: ts, _, d, hd, @WrittenAll.more _ _ _ us us' n h hmore => by
    intro rest m hclose hm
    rw [insideAll, Nat.max_le] at hd
    obtain ⟨d, rfl⟩ : ∃ d', d = d' + 1 := ⟨d - 1, by omega⟩
    have hfits : Fits g d 0 t us := fits_written (by omega) (by rw [nesting_zero]; omega)
      (fits_plain t) h
    simp only [List.length_append, List.length_cons] at hm
    obtain ⟨m, rfl⟩ : ∃ m', m = m' + 1 := ⟨m - 1, by omega⟩
    rw [List.append_assoc, List.cons_append]
    refine arguments_written (opens_written (opens_plain t) h) hfits.reads (stops_comma n) ?_
    refine reads_arguments (t' :: ts) us' (d + 1) hd.2 hmore rest m hclose ?_
    rw [List.length_append]
    omega

end

end Grammar

/-! ## Whole lists of tokens -/

/-- **A written tree is read back.** -/
theorem Tree.read_written {t : Tree} {ts : List Token} (h : Written 0 t ts) (n : Nat)
    (strict : Bool) {maxDepth : Nat} (hdepth : 1 + t.nesting 0 ≤ maxDepth) :
    Tree.read (ts ++ [⟨.endOfInput, n⟩]) strict maxDepth = .ok ⟨t, [], 0⟩ := by
  obtain ⟨d, rfl⟩ : ∃ d, maxDepth = d + 1 := ⟨maxDepth - 1, by omega⟩
  have hendless : Endless ts := endless_written (endless_plain t) h
  have hfits : Grammar.Fits ⟨strict, d + 1, endOffset (ts ++ [⟨.endOfInput, n⟩])⟩ d 0 t ts :=
    Grammar.fits_written (by omega) (by omega) (Grammar.fits_plain t) h
  have hreads := hfits.reads [] Grammar.stops_nil
  rw [List.append_nil] at hreads
  have hexpression : Grammar.expression ⟨strict, d + 1, endOffset (ts ++ [⟨.endOfInput, n⟩])⟩
      (d + 1) ts = .ok ⟨t, [], 0⟩ := hreads
  unfold Tree.read
  simp only
  rw [hendless.beforeEnd_append n, bind_apply, hexpression, andThen_ok_zero]
  rfl

/-- **Every tree is read back with its own meaning.** However its tokens are placed, evaluating
them is evaluating the tree: nothing is left over, and only a name can stop it. -/
theorem evaluateTokens_written (t : Tree) (ht : t.avoidsKeywords) :
    (∃ ts, Written 0 t ts) ∧
      ∀ (ts : List Token) (n : Nat) (bindings : Table Value) (functions : Table Callable)
        (options : Options), Written 0 t ts → 1 + t.nesting 0 ≤ options.maxDepth →
        let report := evaluateTokens (ts ++ [⟨.endOfInput, n⟩]) bindings functions options
        let value := t.evaluate ⟨bindings, functions, options.shortCircuit⟩ false
        report.result = value.result ∧ report.calls = value.calls ∧
          (∀ v, report.result = .ok v → report.unread = []) ∧
          ∀ e, report.result = .error e → e.isStructural = false := by
  refine ⟨?_, fun ts n bindings functions options hwritten hdepth ↦ ?_⟩
  · obtain ⟨us, hus⟩ := exists_plain t ht
    exact exists_written hus 0
  · intro report value
    have hagrees := agrees_evaluateTokens (ts ++ [⟨.endOfInput, n⟩]) bindings functions options
    rw [Tree.read_written hwritten n options.strict hdepth] at hagrees
    have hresult : report.result = value.result := congrArg Run.result hagrees.run
    refine ⟨hresult, congrArg Run.calls hagrees.run, fun v hv ↦ ?_, fun e he ↦ ?_⟩
    · obtain ⟨p, hp, hunread⟩ := hagrees.unread_of_ok v hv
      obtain rfl := Except.ok.inj hp
      exact hunread
    · exact stopsAtNames_evaluate _ t false e (hresult ▸ he)

/-- `(a or b) and not c`, with `b` passed over and `c` unknown. -/
theorem evaluateTokens_written_group :
    (evaluateTokens
      ([⟨.openParen, 0⟩, ⟨.identifier "a", 1⟩, ⟨.identifier "or", 3⟩, ⟨.identifier "b", 6⟩,
        ⟨.closeParen, 7⟩, ⟨.identifier "and", 9⟩, ⟨.identifier "not", 13⟩, ⟨.identifier "c", 17⟩]
        ++ [⟨.endOfInput, 18⟩])
      (Table.empty.insert "a" (.boolean true)) Table.empty
      { maxDepth := 2, shortCircuit := true }).result = .error (.undefinedVariable "c" 17) := by
  have hnamed : ∀ (name : String) (n : Nat), name ∉ reserved →
      Written 2 (.named name n) [⟨.identifier name, n⟩] := fun name n h ↦
    .plain rfl (.named n h)
  have hor : Plain (.joined .or (.named "a" 1) (.named "b" 6)) _ :=
    .joined 3 (.plain rfl (.named 1 (by decide))) (.plain rfl (.named 6 (by decide)))
  have hnot : Plain (.not (.named "c" 17)) _ := .not 13 (hnamed "c" 17 (by decide))
  have hand : Plain (.joined .and _ _) _ := .joined 9 (.group 0 7 rfl hor) (.plain rfl hnot)
  have h := (evaluateTokens_written _ (by decide)).2 _ 18 (Table.empty.insert "a" (.boolean true))
    Table.empty { maxDepth := 2, shortCircuit := true } (.plain rfl hand) (by decide)
  exact h.1

end Formula
