import Formula.Proofs.Blame

/-!
# Laws of reading

A law says what a reading keeps throughout: which tokens can be in front where so many more levels
may be opened, what holds of every tree that is finished, and what holds of every error. Only a few
places of the grammar can break one. A tree begins at a literal or a name and is put together from
smaller ones, a level is opened behind `(` and `not`, and a reader fails for one of four reasons. A
law that holds at these places (`Law.Local`) holds of the whole reading, of the trees in the draft
of a failure as well as of the one that is read in the end (`Law.Local.read`).

The number of levels goes along because of one of these reasons: where no level is left, a law has
to admit that the reading goes too deep.
-/

namespace Formula

open Formula.Tree Reader

/-- Whether what follows a token can be one level deeper. -/
def TokenKind.opensLevel : TokenKind → Bool
  | .openParen => true
  | k => k.isKeyword "not"

/-- What is to hold in a reading. -/
structure Law where
  /-- The tokens that can be in front where this many levels may still be opened. -/
  tokens : Nat → List Token → Prop
  tree : Tree → Prop
  error : EvalError → Prop

namespace Law

variable {α β : Type} {L : Law} {g : Grammar} {n : Nat}

/-- What holds of every tree holds of the one in a frame. -/
def frame (L : Law) : Frame → Prop
  | .after t | .right _ t => L.tree t

/-- What holds of an outcome: `value` of what was read, and the law of a failure and its draft. -/
def outcome (L : Law) (value : α → Prop) : Except Failure (Part α) → Prop
  | .ok p => value p.value
  | .error f => L.error f.error ∧ ∀ fr ∈ f.draft, L.frame fr

/-- The places at which a law has to be checked. -/
structure Local (L : Law) (g : Grammar) : Prop where
  suffix : ∀ {n : Nat} {ts us : List Token}, L.tokens n ts → us <:+ ts → L.tokens n us
  opened : ∀ {n : Nat} {ts : List Token}, L.tokens (n + 1) ts → (front ts).opensLevel →
    L.tokens n ts.tail
  literal : ∀ v : Value, L.tree (.literal v)
  named : ∀ {n : Nat} {ts : List Token} {name : String}, L.tokens n ts →
    front ts = .identifier name → front ts.tail ≠ .openParen →
    L.tree (.named name (g.position ts))
  call : ∀ {n : Nat} {ts : List Token} {name : String} {as : List Tree}, L.tokens n ts →
    front ts = .identifier name → front ts.tail = .openParen → (∀ t ∈ as, L.tree t) →
    L.tree (.call name as (g.position ts))
  not : ∀ {t : Tree}, L.tree t → L.tree (.not t)
  joined : ∀ {j : Joint} {left right : Tree}, L.tree left → L.tree right →
    L.tree (.joined j left right)
  unexpected : ∀ {n : Nat} {ts : List Token}, L.tokens n ts → (front ts).beginsOperand = false →
    L.error (.unexpectedToken (front ts) (g.position ts))
  tooDeep : ∀ {ts : List Token}, L.tokens 0 ts →
    L.error (.depthExceeded g.maxDepth (g.position ts))
  unclosed : ∀ {n : Nat} {ts : List Token}, L.tokens n ts → g.strict → front ts ≠ .closeParen →
    L.error (.unclosedParen (g.position ts))
  trailing : ∀ {n : Nat} {t : Token} {ts : List Token}, L.tokens n (t :: ts) → g.strict →
    L.error (.trailingTokens t.kind t.offset)

/-- A reader that keeps a law where `n` levels may still be opened. -/
structure Obeys (L : Law) (n : Nat) (value : α → Prop) (r : Reader α) : Prop where
  keeps : r.Keeps
  outcome : ∀ ts, L.tokens n ts → L.outcome value (r ts)

/-! ## Readers behind one another -/

section Readers

variable {value : α → Prop} {value' : β → Prop}

theorem outcome_map_missing (o : Except Failure (Part α)) (k : Nat) :
    L.outcome value (o.map fun q ↦ { q with missing := k + q.missing }) ↔ L.outcome value o := by
  cases o <;> rfl

theorem obeys_pure {a : α} (h : value a) : L.Obeys n value (pure a : Reader α) :=
  ⟨keeps_pure a, fun _ _ ↦ h⟩

theorem obeys_comma : L.Obeys n (fun _ ↦ True) comma := ⟨keeps_comma, fun _ _ ↦ trivial⟩

theorem Obeys.bind (hL : L.Local g) {r : Reader α} {next : α → Reader β}
    (hr : L.Obeys n value r) (hkeeps : ∀ a, (next a).Keeps)
    (hnext : ∀ a, value a → L.Obeys n value' (next a)) : L.Obeys n value' (r >>= next) := by
  refine ⟨hr.keeps.bind hkeeps, fun ts hts ↦ ?_⟩
  have hfirst := hr.outcome ts hts
  rw [bind_apply]
  cases hp : r ts with
  | error f =>
    rw [hp] at hfirst
    exact hfirst
  | ok p =>
    rw [hp] at hfirst
    rw [andThen_ok, outcome_map_missing]
    exact (hnext p.value hfirst).outcome p.rest (hL.suffix hts (hr.keeps ts p hp))

theorem Obeys.within {r : Reader α} {frames : List Frame} (hframes : ∀ fr ∈ frames, L.frame fr)
    (hr : L.Obeys n value r) : L.Obeys n value (within frames r) := by
  refine ⟨hr.keeps.within frames, fun ts hts ↦ ?_⟩
  have hfirst := hr.outcome ts hts
  cases hres : r ts with
  | ok p =>
    rw [hres] at hfirst
    rw [within_of_ok frames hres]
    exact hfirst
  | error f =>
    rw [hres] at hfirst
    rw [within_of_error frames hres]
    exact ⟨hfirst.1, fun fr hfr ↦ (List.mem_append.mp hfr).elim (hframes fr) (hfirst.2 fr)⟩

theorem frame_of_mem_after {t : Tree} (h : L.tree t) : ∀ fr ∈ [Frame.after t], L.frame fr := by
  intro fr hfr
  rw [List.mem_singleton.mp hfr]
  exact h

theorem frame_of_mem_right {j : Joint} {left : Tree} (h : L.tree left) :
    ∀ fr ∈ [Frame.right j left], L.frame fr := by
  intro fr hfr
  rw [List.mem_singleton.mp hfr]
  exact h

theorem frame_of_mem_map_after {as : List Tree} (h : ∀ t ∈ as, L.tree t) :
    ∀ fr ∈ as.map Frame.after, L.frame fr := by
  intro fr hfr
  obtain ⟨t, ht, rfl⟩ := List.mem_map.mp hfr
  exact h t ht

end Readers

/-! ## Rows and arguments -/

variable (hL : L.Local g)

include hL

theorem obeys_rowFrom (l : Level) {operand : Reader Tree} (h : L.Obeys n L.tree operand) (k : Nat) :
    ∀ left, L.tree left → L.Obeys n L.tree (rowFrom l operand k left) := by
  induction k with
  | zero => exact fun left hleft ↦ obeys_pure hleft
  | succ k ih =>
    refine fun left hleft ↦ ⟨keeps_rowFrom l h.keeps (k + 1) left, fun ts hts ↦ ?_⟩
    cases hj : Joint.atLevel? l (front ts) with
    | none =>
      rw [rowFrom_end hj]
      exact hleft
    | some j =>
      rw [rowFrom_joint hj]
      have hright := (h.within (frame_of_mem_right (j := j) hleft)).bind hL
        (fun right ↦ keeps_rowFrom l h.keeps k (.joined j left right))
        fun right hright ↦ ih _ (hL.joined hleft hright)
      exact hright.outcome _ (hL.suffix hts (List.tail_suffix ts))

theorem obeys_row (l : Level) {operand : Reader Tree} (h : L.Obeys n L.tree operand) :
    L.Obeys n L.tree (row l operand) := by
  have hbind : ∀ k, L.Obeys n L.tree (operand >>= rowFrom l operand k) := fun k ↦
    h.bind hL (keeps_rowFrom l h.keeps k) (obeys_rowFrom hL l h k)
  exact ⟨fun ts ↦ (hbind ts.length).keeps ts, fun ts ↦ (hbind ts.length).outcome ts⟩

theorem obeys_arguments {argument : Reader Tree} (h : L.Obeys n L.tree argument) (k : Nat) :
    L.Obeys n (fun as ↦ ∀ t ∈ as, L.tree t) (arguments argument k) := by
  induction k with
  | zero => exact obeys_pure (by simp)
  | succ k ih =>
    refine ⟨keeps_arguments h.keeps (k + 1), fun ts hts ↦ ?_⟩
    by_cases hends : endsArguments (front ts)
    · rw [arguments_end hends]
      exact fun t ht ↦ absurd ht (by simp)
    · rw [arguments_more hends]
      have hothers : ∀ first : Tree, (do
          let others ← within [.after first] (arguments argument k)
          return first :: others : Reader (List Tree)).Keeps := fun first ↦
        (ih.keeps.within _).bind fun others ↦ keeps_pure _
      refine (h.bind hL (fun first ↦ keeps_comma.bind fun _ ↦ hothers first)
        fun first hfirst ↦ ?_).outcome ts hts
      refine obeys_comma.bind hL (fun _ ↦ hothers first) fun _ _ ↦ ?_
      exact (ih.within (frame_of_mem_after hfirst)).bind hL (fun others ↦ keeps_pure _)
        fun others hrest ↦ obeys_pure (List.forall_mem_cons.mpr ⟨hfirst, hrest⟩)

/-! ## The grammar -/

theorem obeys_tooDeep : L.Obeys 0 L.tree (g.tooDeep : Reader Tree) :=
  ⟨g.advances_tooDeep.keeps, fun _ hts ↦ ⟨hL.tooDeep hts, by simp⟩⟩

theorem obeys_closing : L.Obeys n (fun _ ↦ True) g.closing := by
  refine ⟨g.keeps_closing, fun ts hts ↦ ?_⟩
  unfold Grammar.closing
  split
  · trivial
  · next hfront =>
    split
    · next hstrict => exact ⟨hL.unclosed hts hstrict fun h ↦ hfront h, by simp⟩
    · trivial

theorem obeys_ending : L.Obeys n (fun _ ↦ True) g.ending := by
  refine ⟨g.keeps_ending, fun ts hts ↦ ?_⟩
  unfold Grammar.ending
  split
  · trivial
  · split
    · next hstrict => exact ⟨hL.trailing hts hstrict, by simp⟩
    · trivial

/-- What is closed off is a tree as it was. -/
theorem Obeys.closed {c : Reader Unit} (hc : L.Obeys n (fun _ ↦ True) c) {frames : List Frame}
    (hframes : ∀ fr ∈ frames, L.frame fr) {t : Tree} (ht : L.tree t) :
    L.Obeys n L.tree (do
      Reader.within frames c
      return t) :=
  (hc.within hframes).bind hL (fun _ ↦ keeps_pure t) fun _ _ ↦ obeys_pure ht

theorem obeys_operand {group : Reader Tree} (h : L.Obeys n L.tree group) :
    L.Obeys (n + 1) L.tree (g.operand group) := by
  refine ⟨(g.advances_operand h.keeps).keeps, fun ts hts ↦ ?_⟩
  have hclosed : ∀ (frames : List Frame) (t : Tree), (do
      Reader.within frames g.closing
      return t : Reader Tree).Keeps := fun frames t ↦
    (g.keeps_closing.within frames).bind fun _ ↦ keeps_pure t
  unfold Grammar.operand
  split
  · exact hL.literal _
  · exact hL.literal _
  · exact hL.literal _
  · next hfront =>
    have hgroup := h.bind hL (fun t ↦ hclosed [.after t] t) fun t ht ↦
      (obeys_closing hL).closed hL (frame_of_mem_after ht) ht
    exact hgroup.outcome _ (hL.opened hts (by rw [hfront]; rfl))
  · next name hname =>
    split
    · next hparen =>
      have hcall := (obeys_arguments hL h ts.length).bind hL
        (fun as ↦ hclosed (as.map .after) (.call name as (g.position ts))) fun as has ↦
          (obeys_closing hL).closed hL (frame_of_mem_map_after has) (hL.call hts hname hparen has)
      exact hcall.outcome _
        (hL.opened (hL.suffix hts (List.tail_suffix ts)) (by rw [hparen]; rfl))
    · next hparen => exact hL.named hts hname fun h ↦ hparen h
  · next hnumber htext hboolean hopen hidentifier =>
    refine ⟨hL.unexpected hts ?_, by simp⟩
    cases hfront : front ts with
    | number x => exact absurd hfront (hnumber x)
    | text t => exact absurd hfront (htext t)
    | boolean b => exact absurd hfront (hboolean b)
    | openParen => exact absurd hfront hopen
    | identifier name => exact absurd hfront (hidentifier name)
    | operator | closeParen | comma | endOfInput => rfl

theorem obeys_sum {group : Reader Tree} (h : L.Obeys n L.tree group) :
    L.Obeys (n + 1) L.tree (g.sum group) :=
  obeys_row hL .sum (obeys_row hL .product (obeys_operand hL h))

theorem obeys_comparison {group : Reader Tree} (h : L.Obeys n L.tree group) :
    L.Obeys (n + 1) L.tree (g.comparison group) := by
  have hsum := obeys_sum hL h
  exact hsum.bind hL (keeps_rowFrom .comparison hsum.keeps 1) (obeys_rowFrom hL .comparison hsum 1)

theorem obeys_termOver {negated group : Reader Tree} (hn : L.Obeys n L.tree negated)
    (h : L.Obeys n L.tree group) : L.Obeys (n + 1) L.tree (g.termOver negated group) := by
  refine ⟨(g.advances_termOver hn.keeps h.keeps).keeps, fun ts hts ↦ ?_⟩
  unfold Grammar.termOver
  split
  · next hnot =>
    have hnegated := hn.bind hL (fun t ↦ keeps_pure (Tree.not t)) fun t ht ↦
      obeys_pure (hL.not ht)
    exact hnegated.outcome _ (hL.opened hts (by rw [TokenKind.eq_of_isKeyword hnot]; rfl))
  · exact (obeys_comparison hL h).outcome ts hts

theorem obeys_expressionOver {term : Reader Tree} (h : L.Obeys n L.tree term) :
    L.Obeys n L.tree (Grammar.expressionOver term) :=
  obeys_row hL .disjunction (obeys_row hL .conjunction h)

/-- A term is one level above what it opens. -/
theorem obeys_term (depth : Nat) : L.Obeys (depth + 1) L.tree (g.term depth) := by
  induction depth with
  | zero => exact obeys_termOver hL (obeys_tooDeep hL) (obeys_tooDeep hL)
  | succ depth ih => exact obeys_termOver hL ih (obeys_expressionOver hL ih)

theorem obeys_expression (depth : Nat) : L.Obeys depth L.tree (g.expression depth) := by
  cases depth with
  | zero => exact obeys_tooDeep hL
  | succ depth => exact obeys_expressionOver hL (obeys_term hL depth)

end Law

/-- **What a law says holds of a whole reading.** -/
theorem Law.Local.read {L : Law} {tokens : List Token} {strict : Bool} {maxDepth : Nat}
    (hL : L.Local ⟨strict, maxDepth, endOffset tokens⟩)
    (htokens : L.tokens maxDepth (beforeEnd tokens)) :
    L.outcome L.tree (Tree.read tokens strict maxDepth) :=
  ((obeys_expression hL maxDepth).bind hL
    (fun t ↦ ((Grammar.keeps_ending _).within [.after t]).bind fun _ ↦ keeps_pure t)
    fun _ ht ↦ (obeys_ending hL).closed hL (frame_of_mem_after ht) ht).outcome _ htokens

end Formula
