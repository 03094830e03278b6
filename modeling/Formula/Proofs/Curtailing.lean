import Formula.Proofs.Blame
import Formula.Proofs.Meaning

/-!
# Reading that is given up earlier

Grammars differ in what they put up with. Of two that otherwise agree, one gives up with an error of
some kind where the other goes on, and from there on the other one can do anything at all: a closing
bracket that it does without ends a group early, and the rest of the tokens is read at another
level. So the two are compared only up to that place (`Curtails`). Either they come to the same, or
the first has given up; and then

* what it had read is evaluated first by the other one as well, and
* the other one does not stop at an earlier token.

If missing brackets are what the two grammars differ in, the comparison also counts them: none is
missing where they come to the same, and at least one is where the first has given up.
-/

namespace Formula

open Formula.Tree Reader

variable {α β γ δ : Type}

/-- The tokens that an outcome leaves. -/
def unread : Except Failure (Part α) → List Token
  | .ok p => p.rest
  | .error f => f.unread

@[simp] theorem unread_map_missing (outcome : Except Failure (Part α)) (n : Nat) :
    unread (outcome.map fun q ↦ { q with missing := n + q.missing }) = unread outcome := by
  cases outcome <;> rfl

theorem Grammar.Locates.unread_suffix {g : Grammar} {r : Reader α} (h : g.Locates r)
    (ts : List Token) : unread (r ts) <:+ ts := by
  cases hr : r ts with
  | ok p => exact h.keeps ts p hr
  | error f => exact (h.blames ts f hr).1

/-- The first outcome is the second, or was given up with an error that `stops` tells. -/
inductive Curtails (stops : EvalError → Prop) (counts : Prop)
    (evaluate : Scope → Bool → α → Run β) :
    Except Failure (Part α) → Except Failure (Part α) → Prop
  | complete (p : Part α) (hmissing : counts → p.missing = 0) :
    Curtails stops counts evaluate (.ok p) (.ok p)
  | failed (f : Failure) : Curtails stops counts evaluate (.error f) (.error f)
  | early (f : Failure) (outcome : Except Failure (Part α)) (hstops : stops f.error)
    (hmissing : counts → ∀ p, outcome = .ok p → 0 < p.missing)
    (hunread : unread outcome <:+ f.unread)
    (hbegins : ∀ ρ skipping, Run.Begins (enterAll ρ skipping f.draft)
      (meaning ρ (evaluate ρ) skipping outcome)) :
    Curtails stops counts evaluate (.error f) outcome

namespace Curtails

variable {stops : EvalError → Prop} {counts : Prop} {evaluate : Scope → Bool → α → Run β}
  {evaluate' : Scope → Bool → γ → Run δ}

theorem map_missing {o o' : Except Failure (Part α)} {n : Nat} (hn : counts → n = 0)
    (h : Curtails stops counts evaluate o o') : Curtails stops counts evaluate
      (o.map fun q ↦ { q with missing := n + q.missing })
      (o'.map fun q ↦ { q with missing := n + q.missing }) := by
  cases h with
  | complete p hmissing =>
    refine .complete { p with missing := n + p.missing } fun hcounts ↦ ?_
    rw [hn hcounts, hmissing hcounts]
  | failed f => exact .failed f
  | early f _ hstops hmissing hunread hbegins =>
    refine .early f _ hstops (fun hcounts p hp ↦ ?_) ?_ fun ρ skipping ↦ ?_
    · cases o' with
      | error f' => exact absurd hp (by simp [Except.map])
      | ok q =>
        obtain rfl : { q with missing := n + q.missing } = p := Except.ok.inj hp
        exact Nat.add_pos_right n (hmissing hcounts q rfl)
    · rw [unread_map_missing]
      exact hunread
    · rw [meaning_map_missing]
      exact hbegins ρ skipping

/-- **Readers that agree up to giving up can be put together.** -/
theorem bind_within {frames : List Frame} {r r' : Reader α} {next next' : α → Reader γ}
    {ts : List Token} (h : Curtails stops counts evaluate (r ts) (r' ts))
    (hnext : ∀ a rest, Curtails stops counts evaluate' (next a rest) (next' a rest))
    (hunread : ∀ a rest, unread (next' a rest) <:+ rest)
    (hbegins : ∀ ρ skipping (p : Part α),
      Run.Begins (enterAll ρ skipping frames >>= (evaluate ρ · p.value))
        (meaning ρ (evaluate' ρ) skipping (next' p.value p.rest))) :
    Curtails stops counts evaluate' ((within frames r >>= next) ts)
      ((within frames r' >>= next') ts) := by
  have hmeaning := fun ρ skipping ↦ begins_within (evaluate ρ) r' ts (hbegins ρ skipping)
  generalize hr : r ts = o at h
  generalize hr' : r' ts = o' at h hmeaning
  cases h with
  | complete p hmissing =>
    rw [bind_apply, within_of_ok _ hr, andThen_ok, bind_apply, within_of_ok _ hr', andThen_ok]
    exact (hnext p.value p.rest).map_missing hmissing
  | failed f =>
    rw [bind_apply, bind_apply, within_of_error frames hr, within_of_error frames hr']
    exact .failed _
  | early f _ hstops hmissing hrest hruns =>
    -- the first reader ends here; the second may go on or fail, and comes to more either way
    have hfirst : (within frames r >>= next) ts
        = .error { f with draft := frames ++ f.draft } := by
      rw [bind_apply, within_of_error frames hr, andThen_error]
    rw [hfirst]
    refine .early _ _ hstops (fun hcounts q hq ↦ ?_) ?_ fun ρ skipping ↦ ?_
    · obtain ⟨p, q', hp, -, rfl⟩ := andThen_eq_ok hq
      have hp' : o' = .ok p := hr' ▸ within_eq_ok.mp hp
      exact Nat.add_pos_left (hmissing hcounts p hp') _
    · rw [bind_apply]
      cases o' with
      | error f' =>
        rw [within_of_error frames hr', andThen_error]
        exact hrest
      | ok p =>
        rw [within_of_ok frames hr', andThen_ok, unread_map_missing]
        exact (hunread p.value p.rest).trans hrest
    · rw [enterAll_append]
      exact (Run.Begins.bind fun skipping' ↦ hruns ρ skipping').trans (hmeaning ρ skipping)

/-- One reader behind another. -/
theorem bind {r r' : Reader α} {next next' : α → Reader γ} {ts : List Token}
    (h : Curtails stops counts evaluate (r ts) (r' ts))
    (hnext : ∀ a rest, Curtails stops counts evaluate' (next a rest) (next' a rest))
    (hunread : ∀ a rest, unread (next' a rest) <:+ rest)
    (hbegins : ∀ ρ skipping (p : Part α), Run.Begins (evaluate ρ skipping p.value)
      (meaning ρ (evaluate' ρ) skipping (next' p.value p.rest))) :
    Curtails stops counts evaluate' ((r >>= next) ts) ((r' >>= next') ts) := by
  rw [← within_nil r, ← within_nil r']
  refine bind_within h hnext hunread fun ρ skipping p ↦ ?_
  have hnil : enterAll ρ skipping [] = pure skipping := rfl
  rw [hnil, pure_bind]
  exact hbegins ρ skipping p

end Curtails

/-- A reader is the other one, or gives up earlier. -/
def Curtailed (stops : EvalError → Prop) (counts : Prop) (evaluate : Scope → Bool → α → Run β)
    (r r' : Reader α) : Prop :=
  ∀ ts, Curtails stops counts evaluate (r ts) (r' ts)

/-! ## Rows and arguments -/

section Readers

variable {stops : EvalError → Prop} {counts : Prop} {g' : Grammar}

theorem curtailed_pure (evaluate : Scope → Bool → α → Run β) (a : α) :
    Curtailed stops counts evaluate (pure a) (pure a) :=
  fun ts ↦ .complete ⟨a, ts, 0⟩ fun _ ↦ rfl

theorem curtailed_rowFrom (l : Level) {operand operand' : Reader Tree}
    (h : Curtailed stops counts Tree.evaluate operand operand') (hlocates : g'.Locates operand')
    (n : Nat) : ∀ left : Tree, Curtailed stops counts Tree.evaluate (rowFrom l operand n left)
      (rowFrom l operand' n left) := by
  induction n with
  | zero => exact fun left ↦ curtailed_pure _ left
  | succ n ih =>
    intro left ts
    cases hj : Joint.atLevel? l (front ts) with
    | none =>
      rw [rowFrom_end hj, rowFrom_end hj]
      exact .complete _ fun _ ↦ rfl
    | some j =>
      rw [rowFrom_joint hj, rowFrom_joint hj]
      refine Curtails.bind_within (h ts.tail) (fun right rest ↦ ih _ rest) (fun right rest ↦ ?_)
        fun ρ skipping p ↦ ?_
      · exact (Grammar.locates_rowFrom l hlocates n _).unread_suffix rest
      · exact (begins_joined skipping j left p.value).trans
          (begins_rowFrom l operand' skipping n _ _)

theorem curtailed_row (l : Level) {operand operand' : Reader Tree}
    (h : Curtailed stops counts Tree.evaluate operand operand') (hlocates : g'.Locates operand') :
    Curtailed stops counts Tree.evaluate (row l operand) (row l operand') :=
  fun ts ↦ Curtails.bind (h ts) (fun left rest ↦ curtailed_rowFrom l h hlocates ts.length left rest)
    (fun left rest ↦ (Grammar.locates_rowFrom l hlocates ts.length left).unread_suffix rest)
    fun _ skipping p ↦ begins_rowFrom l operand' skipping ts.length p.value p.rest

theorem curtailed_arguments {argument argument' : Reader Tree}
    (h : Curtailed stops counts Tree.evaluate argument argument')
    (hlocates : g'.Locates argument') (n : Nat) :
    Curtailed stops counts evaluateAll (arguments argument n) (arguments argument' n) := by
  induction n with
  | zero => exact curtailed_pure _ []
  | succ n ih =>
    intro ts
    by_cases hends : endsArguments (front ts)
    · rw [arguments_end hends, arguments_end hends]
      exact .complete _ fun _ ↦ rfl
    · rw [arguments_more hends, arguments_more hends]
      have hothers := fun first ↦ ((Grammar.locates_arguments hlocates n).within
        [Frame.after first]).bind fun others ↦ Grammar.locates_pure (first :: others)
      refine Curtails.bind (h ts) (fun first rest ↦ ?_) (fun first rest ↦ ?_)
        fun _ skipping p ↦ begins_arguments skipping p.value _ p.rest
      · rw [bind_apply, bind_apply, comma, andThen_ok_zero, andThen_ok_zero]
        refine Curtails.bind_within (ih _) (fun others rest ↦ curtailed_pure _ _ rest)
          (fun others rest ↦ (Grammar.locates_pure (g := g') _).unread_suffix rest)
          fun ρ skipping q ↦ ?_
        exact (begins_cons skipping first q.value).trans
          (begins_meaning (evaluateAll ρ) skipping ⟨first :: q.value, q.rest, 0⟩)
      · exact (Grammar.locates_comma.bind fun _ ↦ hothers first).unread_suffix rest

/-- What is closed off, by readers that agree up to giving up. -/
theorem curtailed_closed {c c' : Reader Unit} {frames : List Frame} {t : Tree}
    (hc : Curtailed stops counts (fun _ _ _ ↦ (pure () : Run Unit)) c c')
    (hframes : ∀ ρ skipping, Run.Begins (enterAll ρ skipping frames) (t.evaluate ρ skipping)) :
    Curtailed stops counts Tree.evaluate
      (do
        within frames c
        return t)
      (do
        within frames c'
        return t) :=
  fun ts ↦ Curtails.bind_within (hc ts) (fun _ rest ↦ curtailed_pure _ t rest)
    (fun _ rest ↦ List.suffix_refl rest) fun ρ skipping p ↦
      ((hframes ρ skipping).map _).trans (begins_meaning (Tree.evaluate ρ) skipping ⟨t, p.rest, 0⟩)

end Readers

/-! ## The grammar -/

namespace Grammar

variable {stops : EvalError → Prop} {counts : Prop} {g g' : Grammar}

theorem position_eq (hend : g.endOffset = g'.endOffset) : g.position = g'.position := by
  funext ts
  cases ts with
  | nil => exact hend
  | cons t ts => rfl

theorem curtailed_operand (hend : g.endOffset = g'.endOffset)
    (hclosing : Curtailed stops counts (fun _ _ _ ↦ (pure () : Run Unit)) g.closing g'.closing)
    {group group' : Reader Tree} (h : Curtailed stops counts Tree.evaluate group group')
    (hlocates : g'.Locates group') :
    Curtailed stops counts Tree.evaluate (g.operand group) (g'.operand group') := by
  intro ts
  have hliteral : ∀ t : Tree, Curtails stops counts Tree.evaluate
      (.ok ⟨t, ts.tail, 0⟩) (.ok ⟨t, ts.tail, 0⟩) := fun t ↦ .complete _ fun _ ↦ rfl
  have hrefuse : Curtails stops counts Tree.evaluate (g.refuse ts : Except Failure (Part Tree))
      (g'.refuse ts) := by
    rw [refuse, refuse, position_eq hend]
    exact .failed _
  unfold operand
  cases front ts with
  | number x => exact hliteral _
  | text s => exact hliteral _
  | boolean b => exact hliteral _
  | openParen =>
    refine Curtails.bind (h ts.tail) (fun t rest ↦ ?_) (fun t rest ↦ ?_) fun _ skipping p ↦ ?_
    · exact curtailed_closed hclosing (fun _ skipping ↦ begins_group skipping t) rest
    · exact (locates_closing.closed [.after t] t).unread_suffix rest
    · exact begins_closed_group g'.closing skipping p.value p.rest
  | identifier name =>
    cases front ts.tail with
    | openParen =>
      simp only [position_eq hend]
      refine Curtails.bind (curtailed_arguments h hlocates ts.length ts.tail.tail)
        (fun as rest ↦ ?_) (fun as rest ↦ ?_) fun _ skipping p ↦ ?_
      · exact curtailed_closed hclosing (fun _ skipping ↦ begins_call skipping name as _) rest
      · exact (locates_closing.closed (as.map .after) _).unread_suffix rest
      · exact begins_closed_call g'.closing skipping name p.value _ p.rest
    | _ =>
      simp only [position_eq hend]
      exact hliteral _
  | operator op => exact hrefuse
  | closeParen => exact hrefuse
  | comma => exact hrefuse
  | endOfInput => exact hrefuse

theorem curtailed_comparison (hend : g.endOffset = g'.endOffset)
    (hclosing : Curtailed stops counts (fun _ _ _ ↦ (pure () : Run Unit)) g.closing g'.closing)
    {group group' : Reader Tree} (h : Curtailed stops counts Tree.evaluate group group')
    (hlocates : g'.Locates group') :
    Curtailed stops counts Tree.evaluate (g.comparison group) (g'.comparison group') := by
  have hoperand := curtailed_operand hend hclosing h hlocates
  have hproduct := curtailed_row .product hoperand (locates_operand hlocates)
  have hsum : Curtailed stops counts Tree.evaluate (g.sum group) (g'.sum group') :=
    curtailed_row .sum hproduct (locates_row .product (locates_operand hlocates))
  have hlocates' := locates_sum hlocates
  exact fun ts ↦ Curtails.bind (hsum ts)
    (fun left rest ↦ curtailed_rowFrom .comparison hsum hlocates' 1 left rest)
    (fun left rest ↦ (locates_rowFrom .comparison hlocates' 1 left).unread_suffix rest)
    fun _ skipping p ↦ begins_rowFrom .comparison _ skipping 1 p.value p.rest

theorem curtailed_termOver (hend : g.endOffset = g'.endOffset)
    (hclosing : Curtailed stops counts (fun _ _ _ ↦ (pure () : Run Unit)) g.closing g'.closing)
    {negated negated' group group' : Reader Tree}
    (hnegated : Curtailed stops counts Tree.evaluate negated negated')
    (h : Curtailed stops counts Tree.evaluate group group') (hlocates : g'.Locates group') :
    Curtailed stops counts Tree.evaluate (g.termOver negated group)
      (g'.termOver negated' group') := by
  intro ts
  unfold termOver
  by_cases hnot : (front ts).isKeyword "not" = true
  · rw [if_pos hnot, if_pos hnot]
    refine Curtails.bind (hnegated ts.tail) (fun t rest ↦ curtailed_pure _ _ rest)
      (fun t rest ↦ List.suffix_refl rest) fun ρ skipping p ↦ ?_
    exact begins_negated skipping p.value p.rest
  · rw [if_neg hnot, if_neg hnot]
    exact curtailed_comparison hend hclosing h hlocates ts

theorem curtailed_expressionOver {term term' : Reader Tree}
    (h : Curtailed stops counts Tree.evaluate term term') (hlocates : g'.Locates term') :
    Curtailed stops counts Tree.evaluate (expressionOver term) (expressionOver term') :=
  curtailed_row .disjunction (curtailed_row .conjunction h hlocates)
    (locates_row .conjunction hlocates)

end Grammar

end Formula
