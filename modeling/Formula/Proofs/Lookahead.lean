import Formula.Proofs.Writing

/-!
# Looking ahead

A reader looks at the token in front and at none behind it. So what it has read it reads again from
any list that begins with the same tokens, whatever comes then, provided that it ends there as well.
It ends where it looked at a token and left it; what takes the place of that token has to be
something that every reader leaves which left the token itself.

Three things look the same to a reader that goes no further: the same token, an end, and for those
that have come to a closing bracket or to an end, any of the two. `Lookahead` says so of two lists
by what can be done with them: look at the front, take a token, close a bracket. The first list is
one that is read successfully and of which `kept` tokens at least are left, so that a token among
them is never taken. Brackets are the one thing that can be done without, and there the lists may
get out of step: the first one misses a bracket where the second one has it, or the other way round.

The lists that look the same here have a fork: the same tokens up to a place, and from there on one
thing or another (`Forks`). It can be leftovers (`lookahead_replaced`), something behind the end
(`lookahead_appended`), or brackets that are missing at the end (`lookahead_shortened`).
-/

namespace Formula

open Formula.Tree Reader

variable {α β : Type}

/-- A list of which a reader leaves `kept` tokens or more can be replaced by another one. -/
structure Lookahead (g g' : Grammar) (kept : Nat) (R : List Token → List Token → Prop) : Prop where
  /-- Nothing that is not in front of the first list is in front of the second one, but an end. -/
  look : ∀ {ts ts'}, R ts ts' → front ts' = front ts ∨ endsArguments (front ts')
  take : ∀ {ts ts'}, R ts ts' → ¬endsArguments (front ts) → kept < ts.length →
    ∃ t us us', ts = t :: us ∧ ts' = t :: us' ∧ R us us'
  close : ∀ {ts ts' p}, R ts ts' → g.closing ts = .ok p → kept ≤ p.rest.length →
    ∃ q, g'.closing ts' = .ok q ∧ R p.rest q.rest

/-- Where arguments end in the first list, they end in the second one. -/
theorem Lookahead.ends {g g' : Grammar} {kept : Nat} {R : List Token → List Token → Prop}
    (h : Lookahead g g' kept R) {ts ts' : List Token} (hts : R ts ts')
    (hends : endsArguments (front ts)) : endsArguments (front ts') := by
  rcases h.look hts with hsame | hends'
  · rwa [hsame]
  · exact hends'

/-- What the first reader reads from a list, the second one reads from what replaces the list. -/
def Tracks (kept : Nat) (R : List Token → List Token → Prop) (r r' : Reader α) : Prop :=
  ∀ ts ts' p, R ts ts' → r ts = .ok p → kept ≤ p.rest.length →
    ∃ q, r' ts' = .ok q ∧ q.value = p.value ∧ R p.rest q.rest

section Readers

variable {kept : Nat} {R : List Token → List Token → Prop}

theorem tracks_pure (a : α) : Tracks kept R (pure a) (pure a) := by
  intro ts ts' p hts hp _
  obtain rfl := Except.ok.inj hp
  exact ⟨⟨a, ts', 0⟩, rfl, rfl, hts⟩

theorem Tracks.bind {r r' : Reader α} {next next' : α → Reader β} (hr : Tracks kept R r r')
    (hnext : ∀ a, Tracks kept R (next a) (next' a)) (hkeeps : ∀ a, (next a).Keeps) :
    Tracks kept R (r >>= next) (r' >>= next') := by
  intro ts ts' q hts hq hkept
  obtain ⟨p, q', hp, hq', rfl⟩ := andThen_eq_ok hq
  -- what is left at the end was left in between
  have hle := (hkeeps _ _ _ hq').length_le
  obtain ⟨p', hp', hvalue, hrest⟩ := hr ts ts' p hts hp (Nat.le_trans hkept hle)
  obtain ⟨q'', hq'', hvalue', hrest'⟩ := hnext _ _ _ _ hrest hq' hkept
  refine ⟨{ q'' with missing := p'.missing + q''.missing }, ?_, hvalue', hrest'⟩
  rw [bind_apply, hp', andThen_ok, hvalue, hq'']
  rfl

theorem Tracks.within {r r' : Reader α} (h : Tracks kept R r r') (frames frames' : List Frame) :
    Tracks kept R (within frames r) (within frames' r') := by
  intro ts ts' p hts hp hkept
  obtain ⟨q, hq, hvalue, hrest⟩ := h ts ts' p hts (within_eq_ok.mp hp) hkept
  exact ⟨q, within_eq_ok.mpr hq, hvalue, hrest⟩

theorem Lookahead.tracks_closing {g g' : Grammar} (h : Lookahead g g' kept R) :
    Tracks kept R g.closing g'.closing := by
  intro ts ts' p hts hp hkept
  obtain ⟨q, hq, hrest⟩ := h.close hts hp hkept
  exact ⟨q, hq, rfl, hrest⟩

/-- What is closed off by the one is closed off by the other. -/
theorem Lookahead.tracks_closed {g g' : Grammar} (h : Lookahead g g' kept R)
    (frames : List Frame) (t : Tree) : Tracks kept R
      (do
        Reader.within frames g.closing
        return t : Reader Tree)
      (do
        Reader.within frames g'.closing
        return t : Reader Tree) :=
  (h.tracks_closing.within frames frames).bind (fun _ ↦ tracks_pure t) fun _ ↦ keeps_pure t

section Rows

variable {g g' : Grammar} (h : Lookahead g g' kept R)

include h

/-- A reader that was given a token which it cannot have left takes it from both lists. -/
theorem Lookahead.take_front {ts ts' : List Token} (hts : R ts ts') {k : TokenKind}
    (hfront : front ts = k) (hk : ¬endsArguments k) (hkept : kept ≤ ts.tail.length) :
    front ts' = k ∧ g'.position ts' = g.position ts ∧ R ts.tail ts'.tail := by
  subst hfront
  have hpos : 0 < ts.length := by
    refine List.length_pos_iff.mpr fun hnil ↦ hk ?_
    rw [hnil]
    rfl
  rw [List.length_tail] at hkept
  obtain ⟨t, us, us', rfl, rfl, hus⟩ := h.take hts hk (by omega)
  exact ⟨rfl, rfl, hus⟩

/-- A token that is not in front of the first list is not in front of the second one either. -/
theorem Lookahead.front_ne {ts ts' : List Token} (hts : R ts ts') {k : TokenKind}
    (hk : ¬endsArguments k) (hne : front ts ≠ k) : front ts' ≠ k := by
  rcases h.look hts with hsame | hends
  · rwa [hsame]
  · rintro rfl
    exact hk hends

theorem Lookahead.tracks_comma : Tracks kept R comma comma := by
  intro ts ts' p hts hp hkept
  obtain rfl := Except.ok.inj hp
  refine ⟨⟨(), afterComma ts', 0⟩, rfl, rfl, ?_⟩
  by_cases hfront : front ts = .comma
  · simp only [afterComma, hfront] at hkept ⊢
    obtain ⟨hfront', -, htail⟩ := h.take_front hts hfront (by simp [endsArguments]) hkept
    rw [hfront']
    exact htail
  · have hfront' := h.front_ne hts (by simp [endsArguments]) hfront
    have hstays : ∀ us : List Token, front us ≠ .comma → afterComma us = us := by
      intro us hus
      unfold afterComma
      split
      · next hcomma => exact absurd hcomma hus
      · rfl
    rw [hstays ts' hfront']
    simp only [hstays ts hfront]
    exact hts

theorem Lookahead.tracks_rowFrom (l : Level) {operand operand' : Reader Tree}
    (hoperand : Tracks kept R operand operand') (hkeeps : operand.Keeps) (n : Nat) :
    ∀ left : Tree, Tracks kept R (rowFrom l operand n left) (rowFrom l operand' n left) := by
  induction n with
  | zero => exact fun left ↦ tracks_pure left
  | succ n ih =>
    intro left ts ts' p hts hp hkept
    cases hj : Joint.atLevel? l (front ts) with
    | none =>
      have hj' : Joint.atLevel? l (front ts') = none := by
        rcases h.look hts with hsame | hends
        · rw [hsame, hj]
        · exact atLevel?_of_endsArguments hends
      rw [rowFrom_end hj] at hp
      obtain rfl := Except.ok.inj hp
      exact ⟨⟨left, ts', 0⟩, rowFrom_end hj', rfl, hts⟩
    | some j =>
      rw [rowFrom_joint hj] at hp
      have hright := (hkeeps.within [.right j left]).bind fun right ↦
        keeps_rowFrom l hkeeps n (.joined j left right)
      have hends : ¬endsArguments (front ts) := by
        intro hends
        rw [atLevel?_of_endsArguments hends] at hj
        exact absurd hj (by simp)
      obtain ⟨hfront, -, htail⟩ := h.take_front hts rfl hends
        (Nat.le_trans hkept (hright _ _ hp).length_le)
      rw [rowFrom_joint (by rw [hfront, hj])]
      exact ((hoperand.within _ _).bind (fun right ↦ ih _) fun right ↦
        keeps_rowFrom l hkeeps n _) _ _ _ htail hp hkept

theorem Lookahead.tracks_row (l : Level) {operand operand' : Reader Tree}
    (hoperand : Tracks kept R operand operand') (hkeeps : operand.Keeps)
    (hkeeps' : operand'.Keeps) : Tracks kept R (row l operand) (row l operand') := by
  intro ts ts' p hts hp hkept
  rw [row_eq l hkeeps (Nat.le_max_left ts.length ts'.length)] at hp
  rw [row_eq l hkeeps' (Nat.le_max_right ts.length ts'.length)]
  exact (hoperand.bind (fun left ↦ h.tracks_rowFrom l hoperand hkeeps _ left) fun left ↦
    keeps_rowFrom l hkeeps _ left) _ _ _ hts hp hkept

theorem Lookahead.tracks_arguments {argument argument' : Reader Tree}
    (hargument : Tracks kept R argument argument') (hadvances : argument.Advances) (n : Nat) :
    Tracks kept R (arguments argument n) (arguments argument' n) := by
  induction n with
  | zero => exact tracks_pure []
  | succ n ih =>
    intro ts ts' p hts hp hkept
    by_cases hends : endsArguments (front ts)
    · rw [arguments_end hends] at hp
      obtain rfl := Except.ok.inj hp
      exact ⟨⟨[], ts', 0⟩, arguments_end (h.ends hts hends), rfl, hts⟩
    · rw [arguments_more hends] at hp
      have hothers := fun first : Tree ↦ ((keeps_arguments hadvances.keeps n).within
        [.after first]).bind fun others ↦ keeps_pure (first :: others)
      have hmore := fun first : Tree ↦ keeps_comma.bind fun _ ↦ hothers first
      obtain ⟨-, hsuffix⟩ := hadvances.bind hmore ts p hp
      obtain ⟨hfront, -, -⟩ := h.take_front hts rfl hends (Nat.le_trans hkept hsuffix.length_le)
      rw [arguments_more (by rw [hfront]; exact hends)]
      refine (hargument.bind (fun first ↦ ?_) hmore) ts ts' p hts hp hkept
      refine h.tracks_comma.bind (fun _ ↦ ?_) fun _ ↦ hothers first
      exact (ih.within _ _).bind (fun others ↦ tracks_pure _) fun others ↦ keeps_pure _

end Rows

end Readers

/-! ## The grammar -/

namespace Grammar

section Operands

variable {g : Grammar} {group : Reader Tree} {ts : List Token}

theorem operand_literal {v : Value} (h : front ts = v.mark) :
    g.operand group ts = .ok ⟨.literal v, ts.tail, 0⟩ := by
  unfold operand
  rw [h]
  cases v <;> rfl

theorem operand_group (h : front ts = .openParen) :
    g.operand group ts = (do
      let t ← group
      within [.after t] g.closing
      return t : Reader Tree) ts.tail := by
  unfold operand
  rw [h]

theorem operand_call {name : String} (h : front ts = .identifier name)
    (hparen : front ts.tail = .openParen) :
    g.operand group ts = (do
      let as ← arguments group ts.length
      within (as.map .after) g.closing
      return Tree.call name as (g.position ts) : Reader Tree) ts.tail.tail := by
  unfold operand
  simp only [h, hparen]

theorem operand_named {name : String} (h : front ts = .identifier name)
    (hparen : front ts.tail ≠ .openParen) :
    g.operand group ts = .ok ⟨.named name (g.position ts), ts.tail, 0⟩ := by
  unfold operand
  simp only [h]

theorem operand_refuse (h : (front ts).beginsOperand = false) :
    g.operand group ts = g.refuse ts := by
  unfold operand
  cases hfront : front ts <;> simp [hfront, TokenKind.beginsOperand] at h ⊢

end Operands

variable {g g' : Grammar} {kept : Nat} {R : List Token → List Token → Prop}

theorem tracks_tooDeep : Tracks kept R (g.tooDeep : Reader Tree) g'.tooDeep :=
  fun _ _ _ _ hp _ ↦ absurd hp (by simp [tooDeep])

variable (h : Lookahead g g' kept R)

include h

/-- A call, from behind its opening bracket. -/
theorem tracks_call {group group' : Reader Tree} (hgroup : Tracks kept R group group')
    (hadvances : group.Advances) (name : String) (n offset : Nat) : Tracks kept R
      (do
        let as ← Reader.arguments group n
        Reader.within (as.map .after) g.closing
        return Tree.call name as offset : Reader Tree)
      (do
        let as ← Reader.arguments group' n
        Reader.within (as.map .after) g'.closing
        return Tree.call name as offset : Reader Tree) :=
  (h.tracks_arguments hgroup hadvances n).bind (fun as ↦ h.tracks_closed (as.map .after) _)
    fun as ↦ (g.keeps_closing.within (as.map .after)).bind fun _ ↦ keeps_pure _

theorem tracks_operand {group group' : Reader Tree} (hgroup : Tracks kept R group group')
    (hadvances : group.Advances) (hadvances' : group'.Advances) :
    Tracks kept R (g.operand group) (g'.operand group') := by
  intro ts ts' p hts hp hkept
  have hkept' : kept ≤ ts.tail.length :=
    Nat.le_trans hkept (g.advances_operand hadvances.keeps ts p hp).2.length_le
  have hliteral : ∀ v : Value, front ts = v.mark →
      ∃ q, g'.operand group' ts' = .ok q ∧ q.value = p.value ∧ R p.rest q.rest := by
    intro v hfront
    have hmark : ¬endsArguments v.mark := by cases v <;> simp [Value.mark, endsArguments]
    obtain ⟨hfront', -, htail⟩ := h.take_front hts hfront hmark hkept'
    rw [operand_literal hfront] at hp
    obtain rfl := Except.ok.inj hp
    exact ⟨_, operand_literal hfront', rfl, htail⟩
  cases hfront : front ts with
  | number x => exact hliteral (.number x) hfront
  | text s => exact hliteral (.text s) hfront
  | boolean b => exact hliteral (.boolean b) hfront
  | openParen =>
    obtain ⟨hfront', -, htail⟩ := h.take_front hts hfront (by simp [endsArguments]) hkept'
    rw [operand_group hfront] at hp
    rw [operand_group hfront']
    exact (hgroup.bind (fun t ↦ h.tracks_closed [.after t] t) fun t ↦
      (g.keeps_closing.within _).bind fun _ ↦ keeps_pure t) _ _ _ htail hp hkept
  | identifier name =>
    obtain ⟨hfront', hposition, htail⟩ :=
      h.take_front hts hfront (by simp [endsArguments]) hkept'
    by_cases hparen : front ts.tail = .openParen
    · rw [operand_call hfront hparen] at hp
      have hcall := fun as : List Tree ↦ (g.keeps_closing.within (as.map .after)).bind fun _ ↦
        keeps_pure (Tree.call name as (g.position ts))
      have hsuffix := ((keeps_arguments hadvances.keeps ts.length).bind hcall) _ _ hp
      obtain ⟨hparen', -, htail'⟩ := h.take_front htail hparen (by simp [endsArguments])
        (Nat.le_trans hkept hsuffix.length_le)
      have hlength := ((List.tail_suffix ts.tail).trans (List.tail_suffix ts)).length_le
      have hlength' := ((List.tail_suffix ts'.tail).trans (List.tail_suffix ts')).length_le
      have hcount := arguments_count hadvances ts.length (max ts.length ts'.length) ts.tail.tail
        hlength (Nat.le_trans hlength (Nat.le_max_left _ _))
      have hcount' := arguments_count hadvances' ts'.length (max ts.length ts'.length)
        ts'.tail.tail hlength' (Nat.le_trans hlength' (Nat.le_max_right _ _))
      rw [operand_call hfront' hparen', bind_apply, hcount', hposition]
      rw [bind_apply, hcount] at hp
      exact tracks_call h hgroup hadvances name _ _ _ _ _ htail' hp hkept
    · have hparen' := h.front_ne htail (by simp [endsArguments]) hparen
      rw [operand_named hfront hparen] at hp
      obtain rfl := Except.ok.inj hp
      refine ⟨_, operand_named hfront' hparen', ?_, htail⟩
      rw [hposition]
  | operator | closeParen | comma | endOfInput =>
    rw [operand_refuse (by rw [hfront]; rfl)] at hp
    exact absurd hp (by simp [refuse])

theorem tracks_sum {group group' : Reader Tree} (hgroup : Tracks kept R group group')
    (hadvances : group.Advances) (hadvances' : group'.Advances) :
    Tracks kept R (g.sum group) (g'.sum group') := by
  have hoperand := g.advances_operand hadvances.keeps
  have hoperand' := g'.advances_operand hadvances'.keeps
  exact h.tracks_row .sum
    (h.tracks_row .product (tracks_operand h hgroup hadvances hadvances') hoperand.keeps
      hoperand'.keeps)
    (advances_row .product hoperand).keeps (advances_row .product hoperand').keeps

theorem tracks_comparison {group group' : Reader Tree} (hgroup : Tracks kept R group group')
    (hadvances : group.Advances) (hadvances' : group'.Advances) :
    Tracks kept R (g.comparison group) (g'.comparison group') := by
  have hsum := tracks_sum h hgroup hadvances hadvances'
  have hkeeps := (g.advances_sum hadvances.keeps).keeps
  exact hsum.bind (fun left ↦ h.tracks_rowFrom .comparison hsum hkeeps 1 left) fun left ↦
    keeps_rowFrom .comparison hkeeps 1 left

theorem tracks_termOver {negated negated' group group' : Reader Tree}
    (hnegated : Tracks kept R negated negated') (hkeeps : negated.Keeps)
    (hgroup : Tracks kept R group group') (hadvances : group.Advances)
    (hadvances' : group'.Advances) :
    Tracks kept R (g.termOver negated group) (g'.termOver negated' group') := by
  intro ts ts' p hts hp hkept
  unfold termOver at hp ⊢
  by_cases hnot : (front ts).isKeyword "not" = true
  · rw [if_pos hnot] at hp
    have hfront := TokenKind.eq_of_isKeyword hnot
    have hnot' : ∀ t : Tree, (pure (Tree.not t) : Reader Tree).Keeps := fun t ↦ keeps_pure _
    have hsuffix := (hkeeps.bind hnot') _ _ hp
    obtain ⟨hfront', -, htail⟩ := h.take_front hts hfront (by simp [endsArguments])
      (Nat.le_trans hkept hsuffix.length_le)
    rw [if_pos (by rw [hfront', ← hfront, hnot])]
    exact (hnegated.bind (fun t ↦ tracks_pure _) hnot') _ _ _ htail hp hkept
  · rw [if_neg hnot] at hp
    have hfront : front ts ≠ .identifier "not" := by
      intro hfront
      rw [hfront] at hnot
      exact hnot rfl
    have hfront' := h.front_ne hts (by simp [endsArguments]) hfront
    rw [if_neg fun hnot' ↦ hfront' (TokenKind.eq_of_isKeyword hnot')]
    exact tracks_comparison h hgroup hadvances hadvances' ts ts' p hts hp hkept

theorem tracks_expressionOver {term term' : Reader Tree} (hterm : Tracks kept R term term')
    (hadvances : term.Advances) (hadvances' : term'.Advances) :
    Tracks kept R (expressionOver term) (expressionOver term') :=
  h.tracks_row .disjunction (h.tracks_row .conjunction hterm hadvances.keeps hadvances'.keeps)
    (advances_row .conjunction hadvances).keeps (advances_row .conjunction hadvances').keeps

theorem tracks_term (depth : Nat) : Tracks kept R (g.term depth) (g'.term depth) := by
  induction depth with
  | zero =>
    exact tracks_termOver h tracks_tooDeep g.advances_tooDeep.keeps tracks_tooDeep
      g.advances_tooDeep g'.advances_tooDeep
  | succ depth ih =>
    have hadvances := g.advances_term depth
    have hadvances' := g'.advances_term depth
    exact tracks_termOver h ih hadvances.keeps (tracks_expressionOver h ih hadvances hadvances')
      (advances_expressionOver hadvances) (advances_expressionOver hadvances')

/-- **What is read from one list is read from one that looks the same.** -/
theorem tracks_expression (depth : Nat) :
    Tracks kept R (g.expression depth) (g'.expression depth) := by
  cases depth with
  | zero => exact tracks_tooDeep
  | succ depth =>
    exact tracks_expressionOver h (tracks_term h depth) (g.advances_term depth)
      (g'.advances_term depth)

end Grammar

/-! ## Lists that look the same -/

namespace Grammar

variable {g g' : Grammar} {ts : List Token}

theorem closing_of_closeParen (h : front ts = .closeParen) :
    g.closing ts = .ok ⟨(), ts.tail, 0⟩ := by
  unfold closing
  rw [h]

theorem closing_of_ne (h : front ts ≠ .closeParen) (hstrict : g.strict = false) :
    g.closing ts = .ok ⟨(), ts, 1⟩ := by
  unfold closing
  split
  · next hclose => exact absurd hclose h
  · rw [hstrict]
    rfl

/-- A closing bracket is read or done without. -/
theorem closing_cases {p : Part Unit} (h : g.closing ts = .ok p) :
    (front ts = .closeParen ∧ p = ⟨(), ts.tail, 0⟩) ∨
      (front ts ≠ .closeParen ∧ g.strict = false ∧ p = ⟨(), ts, 1⟩) := by
  by_cases hclose : front ts = .closeParen
  · rw [closing_of_closeParen hclose] at h
    exact .inl ⟨hclose, (Except.ok.inj h).symm⟩
  · cases hstrict : g.strict with
    | false =>
      rw [closing_of_ne hclose hstrict] at h
      exact .inr ⟨hclose, rfl, (Except.ok.inj h).symm⟩
    | true =>
      unfold closing at h
      split at h
      · next hclose' => exact absurd hclose' hclose
      · rw [hstrict] at h
        exact absurd h (by simp)

/-- The same tokens, and behind them two lists that take the place of one another. -/
inductive Forks (P : List Token → List Token → Prop) : List Token → List Token → Prop
  | fork {ts ts' : List Token} (h : P ts ts') : Forks P ts ts'
  | token (t : Token) {ts ts' : List Token} (h : Forks P ts ts') : Forks P (t :: ts) (t :: ts')

theorem forks_append {P : List Token → List Token → Prop} (us : List Token) {ts ts' : List Token}
    (h : P ts ts') : Forks P (us ++ ts) (us ++ ts') := by
  induction us with
  | nil => exact .fork h
  | cons u us ih => exact .token u ih

theorem Forks.exists_append {P : List Token → List Token → Prop} {ts ts' : List Token}
    (h : Forks P ts ts') : ∃ us vs vs', ts = us ++ vs ∧ ts' = us ++ vs' ∧ P vs vs' := by
  induction h with
  | fork h => exact ⟨[], _, _, rfl, rfl, h⟩
  | token t h ih =>
    obtain ⟨us, vs, vs', rfl, rfl, hP⟩ := ih
    exact ⟨t :: us, vs, vs', rfl, rfl, hP⟩

/-- **Lists look the same if they do where they fork.** Nothing is taken there from the first one,
because it ends there or because too little would be left of it. -/
theorem lookahead_forks {kept : Nat} {P : List Token → List Token → Prop}
    (hstrict : g'.strict → g.strict)
    (hlook : ∀ ts ts', P ts ts' → front ts' = front ts ∨ endsArguments (front ts'))
    (hstop : ∀ ts ts', P ts ts' → endsArguments (front ts) ∨ ts.length ≤ kept)
    (hclose : ∀ ts ts' p, P ts ts' → g.closing ts = .ok p → kept ≤ p.rest.length →
      ∃ q, g'.closing ts' = .ok q ∧ P p.rest q.rest) :
    Lookahead g g' kept (Forks P) where
  look := by
    intro ts ts' hts
    cases hts with
    | fork h => exact hlook _ _ h
    | token t h => exact .inl rfl
  take := by
    intro ts ts' hts hends hkept
    cases hts with
    | fork h =>
      rcases hstop _ _ h with hends' | hle
      · exact absurd hends' hends
      · omega
    | token t h => exact ⟨t, _, _, rfl, rfl, h⟩
  close := by
    intro ts ts' p hts hp hkept
    cases hts with
    | fork h =>
      obtain ⟨q, hq, hrest⟩ := hclose _ _ p h hp hkept
      exact ⟨q, hq, .fork hrest⟩
    | @token t us us' h =>
      rcases closing_cases hp with ⟨hfront, rfl⟩ | ⟨hfront, hlenient, rfl⟩
      · have hfront' : front (t :: us') = .closeParen := hfront
        exact ⟨_, closing_of_closeParen hfront', h⟩
      · have hfront' : front (t :: us') ≠ .closeParen := hfront
        have hlenient' : g'.strict = false := by
          cases hg' : g'.strict with
          | false => rfl
          | true => exact absurd (hstrict hg') (by simp [hlenient])
        exact ⟨_, closing_of_ne hfront' hlenient', .token t h⟩

/-- What is left over can be replaced behind its first token, and all of it by an end. -/
theorem lookahead_replaced {later later' : List Token} (hstrict : g'.strict = g.strict)
    (hfront : front later' = front later ∨ front later' = .endOfInput) :
    Lookahead g g' later.length (Forks fun ts ts' ↦ ts = later ∧ ts' = later') := by
  refine lookahead_forks (fun h ↦ hstrict ▸ h) ?_ ?_ ?_
  · rintro _ _ ⟨rfl, rfl⟩
    exact hfront.imp_right fun hend ↦ by rw [hend]; rfl
  · rintro _ _ ⟨rfl, rfl⟩
    exact .inr (Nat.le_refl _)
  · rintro ts ts' p ⟨rfl, rfl⟩ hp hkept
    rcases closing_cases hp with ⟨hclose, rfl⟩ | ⟨hclose, hlenient, rfl⟩
    · -- a bracket that was read is not left over
      have hpos := List.length_pos_iff.mpr (ne_nil_of_front hclose (by simp))
      simp only [List.length_tail] at hkept
      omega
    · have hclose' : front ts' ≠ .closeParen := by
        rcases hfront with hsame | hend
        · rwa [hsame]
        · simp [hend]
      exact ⟨_, closing_of_ne hclose' (hstrict.trans hlenient), rfl, rfl⟩

/-- Behind the end of a list there may be something at which arguments end, and go on to be so
when brackets that are missing in the list are read from it. -/
theorem lookahead_appended {P : List Token → Prop} (hstrict : g'.strict → g.strict)
    (hends : ∀ later, P later → endsArguments (front later))
    (hclosing : g.strict = false → ∀ later, P later → ∃ q, g'.closing later = .ok q ∧ P q.rest) :
    Lookahead g g' 0 (Forks fun ts ts' ↦ ts = [] ∧ P ts') := by
  refine lookahead_forks hstrict ?_ ?_ ?_
  · rintro _ later ⟨rfl, hlater⟩
    exact .inr (hends later hlater)
  · rintro _ later ⟨rfl, hlater⟩
    exact .inl rfl
  · rintro _ later p ⟨rfl, hlater⟩ hp _
    rcases closing_cases hp with ⟨hclose, -⟩ | ⟨-, hlenient, rfl⟩
    · exact absurd hclose (by simp [front])
    · obtain ⟨q, hq, hrest⟩ := hclosing hlenient later hlater
      exact ⟨q, hq, rfl, hrest⟩

/-- Whether tokens are closing brackets and nothing else. -/
def Closers (ts : List Token) : Prop := ∀ t ∈ ts, t.kind = .closeParen

theorem Closers.tail (h : Closers ts) : Closers ts.tail :=
  fun t ht ↦ h t (List.mem_of_mem_tail ht)

theorem Closers.endsArguments (h : Closers ts) : endsArguments (front ts) := by
  cases ts with
  | nil => rfl
  | cons t ts =>
    have hfront : front (t :: ts) = .closeParen := h t List.mem_cons_self
    rw [hfront]
    rfl

/-- Closing brackets at the end of a list can be missing where that is put up with. -/
theorem lookahead_shortened (hstrict : g'.strict = false) :
    Lookahead g g' 0 (Forks fun ts ts' ↦ Closers ts ∧ ts' = []) := by
  refine lookahead_forks (by simp [hstrict]) ?_ ?_ ?_
  · rintro ts _ ⟨hclosers, rfl⟩
    exact .inr rfl
  · rintro ts _ ⟨hclosers, rfl⟩
    exact .inl hclosers.endsArguments
  · rintro ts _ p ⟨hclosers, rfl⟩ hp _
    refine ⟨⟨(), [], 1⟩, closing_of_ne (by simp [front]) hstrict, ?_, rfl⟩
    rcases closing_cases hp with ⟨-, rfl⟩ | ⟨-, -, rfl⟩
    · exact hclosers.tail
    · exact hclosers

end Grammar

end Formula
