import Formula.Proofs.Reading

/-!
# Where reading fails

A failure of reading is about one token, the one in front of what is unread, and names the offset of
that token (`Grammar.Blames`). So far that only says what the four places say at which a reader
fails. The rest is that nothing in between changes it: a failure comes out of every reader around it
with the same error and the same tokens, and those are an end of what the outermost one was given
(`Grammar.Locates`).
-/

namespace Formula

open Formula.Tree Reader

/-- Whether an operand can begin with a token. -/
def TokenKind.beginsOperand : TokenKind → Bool
  | .number _ | .text _ | .boolean _ | .identifier _ | .openParen => true
  | .operator _ | .closeParen | .comma | .endOfInput => false

namespace Grammar

variable {α β : Type} (g : Grammar)

/-- What an error says of the tokens from the one at which it was noticed. -/
inductive Blames : EvalError → List Token → Prop
  | unexpected (ts : List Token) (h : (front ts).beginsOperand = false) :
    Blames (.unexpectedToken (front ts) (g.position ts)) ts
  | tooDeep (ts : List Token) : Blames (.depthExceeded g.maxDepth (g.position ts)) ts
  | unclosed (ts : List Token) (hstrict : g.strict) (h : front ts ≠ .closeParen) :
    Blames (.unclosedParen (g.position ts)) ts
  | trailing (t : Token) (ts : List Token) (hstrict : g.strict) :
    Blames (.trailingTokens t.kind t.offset) (t :: ts)

theorem Blames.isStructural {g : Grammar} {e : EvalError} {ts : List Token} (h : g.Blames e ts) :
    e.isStructural := by
  cases h <;> rfl

/-- What a reader leaves is an end of what it was given, also when it fails, and then its failure
is about what it left. -/
structure Locates (r : Reader α) : Prop where
  keeps : r.Keeps
  blames : ∀ ts f, r ts = .error f → f.unread <:+ ts ∧ g.Blames f.error f.unread

variable {g}

theorem Locates.of_ok {r : Reader α} (hkeeps : r.Keeps) (h : ∀ ts, ∃ p, r ts = .ok p) :
    g.Locates r := by
  refine ⟨hkeeps, fun ts f hf ↦ ?_⟩
  obtain ⟨p, hp⟩ := h ts
  rw [hp] at hf
  exact absurd hf (by simp)

theorem locates_pure (a : α) : g.Locates (pure a : Reader α) :=
  .of_ok (keeps_pure a) fun ts ↦ ⟨⟨a, ts, 0⟩, rfl⟩

theorem locates_comma : g.Locates comma :=
  .of_ok keeps_comma fun ts ↦ ⟨⟨(), afterComma ts, 0⟩, rfl⟩

theorem Locates.bind {r : Reader α} {next : α → Reader β} (hr : g.Locates r)
    (hnext : ∀ a, g.Locates (next a)) : g.Locates (r >>= next) := by
  refine ⟨hr.keeps.bind fun a ↦ (hnext a).keeps, fun ts f hf ↦ ?_⟩
  rw [bind_apply] at hf
  cases hp : r ts with
  | error f' =>
    rw [hp, andThen_error] at hf
    obtain rfl := Except.error.inj hf
    exact hr.blames ts f' hp
  | ok p =>
    rw [hp, andThen_ok] at hf
    cases hq : next p.value p.rest with
    | error f' =>
      rw [hq] at hf
      obtain rfl : f' = f := Except.error.inj hf
      obtain ⟨hunread, hblames⟩ := (hnext p.value).blames p.rest f' hq
      exact ⟨hunread.trans (hr.keeps ts p hp), hblames⟩
    | ok q =>
      rw [hq] at hf
      exact absurd hf (by simp [Except.map])

theorem Locates.within {r : Reader α} (h : g.Locates r) (frames : List Frame) :
    g.Locates (within frames r) := by
  refine ⟨h.keeps.within frames, fun ts f hf ↦ ?_⟩
  cases hr : r ts with
  | error f' =>
    rw [within_of_error frames hr] at hf
    obtain rfl : { f' with draft := frames ++ f'.draft } = f := Except.error.inj hf
    exact h.blames ts f' hr
  | ok p =>
    rw [within_of_ok frames hr] at hf
    exact absurd hf (by simp)

/-- Behind a token that was looked at, a reader is given less. -/
theorem Locates.tail {r : Reader α} (h : g.Locates r) {ts : List Token} {f : Failure}
    (hf : r ts.tail = .error f) : f.unread <:+ ts ∧ g.Blames f.error f.unread := by
  obtain ⟨hunread, hblames⟩ := h.blames _ _ hf
  exact ⟨hunread.trans (List.tail_suffix ts), hblames⟩

/-! ## Rows and arguments -/

theorem locates_rowFrom (l : Level) {operand : Reader Tree} (h : g.Locates operand) (n : Nat) :
    ∀ left : Tree, g.Locates (rowFrom l operand n left) := by
  induction n with
  | zero => exact fun left ↦ locates_pure left
  | succ n ih =>
    refine fun left ↦ ⟨keeps_rowFrom l h.keeps (n + 1) left, fun ts f hf ↦ ?_⟩
    cases hj : Joint.atLevel? l (front ts) with
    | some j =>
      rw [rowFrom_joint hj] at hf
      exact ((h.within _).bind fun right ↦ ih _).tail hf
    | none =>
      rw [rowFrom_end hj] at hf
      exact absurd hf (by simp)

theorem locates_row (l : Level) {operand : Reader Tree} (h : g.Locates operand) :
    g.Locates (row l operand) := by
  have hbind : ∀ n, g.Locates (operand >>= rowFrom l operand n) := fun n ↦
    h.bind (locates_rowFrom l h n)
  exact ⟨fun ts ↦ (hbind ts.length).keeps ts, fun ts ↦ (hbind ts.length).blames ts⟩

theorem locates_arguments {argument : Reader Tree} (h : g.Locates argument) (n : Nat) :
    g.Locates (arguments argument n) := by
  induction n with
  | zero => exact locates_pure []
  | succ n ih =>
    refine ⟨keeps_arguments h.keeps (n + 1), fun ts f hf ↦ ?_⟩
    by_cases hends : endsArguments (front ts)
    · rw [arguments_end hends] at hf
      exact absurd hf (by simp)
    · rw [arguments_more hends] at hf
      refine (h.bind fun first ↦ locates_comma.bind fun _ ↦ ?_).blames ts f hf
      exact (ih.within _).bind fun others ↦ locates_pure _

/-! ## The grammar -/

theorem locates_tooDeep : g.Locates (g.tooDeep : Reader Tree) := by
  refine ⟨g.advances_tooDeep.keeps, fun ts f hf ↦ ?_⟩
  obtain rfl := Except.error.inj hf
  exact ⟨List.suffix_refl ts, .tooDeep ts⟩

theorem locates_closing : g.Locates g.closing := by
  refine ⟨g.keeps_closing, fun ts f hf ↦ ?_⟩
  unfold closing at hf
  split at hf
  · exact absurd hf (by simp)
  · next hfront =>
    split at hf
    · next hstrict =>
      obtain rfl := Except.error.inj hf
      exact ⟨List.suffix_refl ts, .unclosed ts hstrict fun h ↦ hfront h⟩
    · exact absurd hf (by simp)

theorem locates_ending : g.Locates g.ending := by
  refine ⟨g.keeps_ending, fun ts f hf ↦ ?_⟩
  unfold ending at hf
  split at hf
  · exact absurd hf (by simp)
  · next t ts =>
    split at hf
    · next hstrict =>
      obtain rfl := Except.error.inj hf
      exact ⟨List.suffix_refl _, .trailing t ts hstrict⟩
    · exact absurd hf (by simp)

/-- What is closed off is still about the tokens that it was given. -/
theorem Locates.closed {c : Reader Unit} (h : g.Locates c) (frames : List Frame) (t : Tree) :
    g.Locates (do
      Reader.within frames c
      return t : Reader Tree) :=
  (h.within frames).bind fun _ ↦ locates_pure t

theorem locates_operand {group : Reader Tree} (h : g.Locates group) :
    g.Locates (g.operand group) := by
  refine ⟨(g.advances_operand h.keeps).keeps, fun ts f hf ↦ ?_⟩
  unfold operand at hf
  split at hf
  · exact absurd hf (by simp)
  · exact absurd hf (by simp)
  · exact absurd hf (by simp)
  · exact (h.bind fun t ↦ locates_closing.closed _ t).tail hf
  · split at hf
    · obtain ⟨hunread, hblames⟩ := ((locates_arguments h ts.length).bind
        fun as ↦ locates_closing.closed _ _).tail hf
      exact ⟨hunread.trans (List.tail_suffix ts), hblames⟩
    · exact absurd hf (by simp)
  · -- what is left are the tokens with which no operand begins
    next hnumber htext hboolean hopen hidentifier =>
    obtain rfl := Except.error.inj hf
    refine ⟨List.suffix_refl ts, .unexpected ts ?_⟩
    cases hfront : front ts with
    | number x => exact absurd hfront (hnumber x)
    | text t => exact absurd hfront (htext t)
    | boolean b => exact absurd hfront (hboolean b)
    | openParen => exact absurd hfront hopen
    | identifier name => exact absurd hfront (hidentifier name)
    | operator | closeParen | comma | endOfInput => rfl

theorem locates_sum {group : Reader Tree} (h : g.Locates group) : g.Locates (g.sum group) :=
  locates_row .sum (locates_row .product (locates_operand h))

theorem locates_comparison {group : Reader Tree} (h : g.Locates group) :
    g.Locates (g.comparison group) :=
  (locates_sum h).bind (locates_rowFrom .comparison (locates_sum h) 1)

theorem locates_termOver {negated group : Reader Tree} (hn : g.Locates negated)
    (h : g.Locates group) : g.Locates (g.termOver negated group) := by
  refine ⟨(g.advances_termOver hn.keeps h.keeps).keeps, fun ts f hf ↦ ?_⟩
  unfold termOver at hf
  split at hf
  · exact (hn.bind fun t ↦ locates_pure _).tail hf
  · exact (locates_comparison h).blames ts f hf

theorem locates_expressionOver {term : Reader Tree} (h : g.Locates term) :
    g.Locates (expressionOver term) :=
  locates_row .disjunction (locates_row .conjunction h)

theorem locates_term (depth : Nat) : g.Locates (g.term depth) := by
  induction depth with
  | zero => exact locates_termOver locates_tooDeep locates_tooDeep
  | succ depth ih => exact locates_termOver ih (locates_expressionOver ih)

theorem locates_expression (depth : Nat) : g.Locates (g.expression depth) := by
  cases depth with
  | zero => exact locates_tooDeep
  | succ depth => exact locates_expressionOver (locates_term depth)

end Grammar

/-- **A failure to read is about the token in front of what is unread.** -/
theorem Tree.blames_read {tokens : List Token} {strict : Bool} {maxDepth : Nat} {f : Failure}
    (h : Tree.read tokens strict maxDepth = .error f) :
    f.unread <:+ beforeEnd tokens ∧
      Grammar.Blames ⟨strict, maxDepth, endOffset tokens⟩ f.error f.unread :=
  ((Grammar.locates_expression maxDepth).bind fun t ↦
    Grammar.locates_ending.closed [.after t] t).blames _ f h

end Formula
