import Formula.Proofs.Reading

/-!
# What an outcome of reading comes to

The second phase. A tree that was read is evaluated; a failure shows as soon as what was read before
it is evaluated, unless a name stops that. Both are runs, so an outcome of reading has one
(`meaning`), and the tokens left go along with the value.

A row builds its tree from the inside out, and so its run is no sequence of the runs of its parts
in any direct way. What is needed of it is only that the operands read so far come first
(`begins_rowFrom`).
-/

namespace Formula

open Formula.Tree Reader

variable {α β γ δ : Type} {ρ : Scope}

/-- Evaluates what was read before a failure, and fails. -/
def Failure.run (ρ : Scope) (skipping : Bool) (f : Failure) : Run β := do
  let _ ← enterAll ρ skipping f.draft
  .fail f.error

/-- The run of an outcome of reading, for parts that `evaluate` evaluates. -/
def meaning (ρ : Scope) (evaluate : Bool → α → Run β) (skipping : Bool) :
    Except Failure (Part α) → Run (β × List Token)
  | .ok p => do
    let b ← evaluate skipping p.value
    return (b, p.rest)
  | .error f => f.run ρ skipping

/-! ## Failures -/

theorem enterAll_cons (skipping : Bool) (f : Frame) (draft : List Frame) :
    enterAll ρ skipping (f :: draft) = f.enter ρ skipping >>= (enterAll ρ · draft) := by
  simp only [enterAll, List.foldlM_cons]

theorem enterAll_append (skipping : Bool) (draft draft' : List Frame) :
    enterAll ρ skipping (draft ++ draft')
      = enterAll ρ skipping draft >>= (enterAll ρ · draft') := by
  simp only [enterAll, List.foldlM_append]

@[simp] theorem enterAll_singleton (skipping : Bool) (f : Frame) :
    enterAll ρ skipping [f] = f.enter ρ skipping := by
  simp only [enterAll, List.foldlM_cons, List.foldlM_nil, bind_pure]

theorem enter_after {skipping : Bool} {t : Tree} {v : Value} {calls : List Call}
    (h : t.evaluate ρ skipping = ⟨.ok v, calls⟩) :
    (Frame.after t).enter ρ skipping = ⟨.ok skipping, calls⟩ := by
  rw [Frame.enter, h, Run.bind_ok, Run.pure_eq, List.append_nil]

theorem enter_right {skipping : Bool} {j : Joint} {left : Tree} {v : Value} {calls : List Call}
    (h : left.evaluate ρ skipping = ⟨.ok v, calls⟩) :
    (Frame.right j left).enter ρ skipping
      = ⟨.ok (skipping || ρ.shortCircuit && j.isDecidedBy v), calls⟩ := by
  rw [Frame.enter, h, Run.bind_ok, Run.pure_eq, List.append_nil]

/-- The arguments of a call are evaluated one by one, also when it then fails. -/
theorem enterAll_map_after (skipping : Bool) (ts : List Tree) :
    enterAll ρ skipping (ts.map .after)
      = evaluateAll ρ skipping ts >>= fun _ ↦ pure skipping := by
  induction ts with
  | nil => rfl
  | cons t ts ih =>
    rw [List.map_cons, enterAll_cons, Frame.enter, evaluateAll]
    simp only [bind_assoc, pure_bind, ih]

/-- In the middle of something, a failure shows behind the frames that are complete. -/
theorem run_within (skipping : Bool) (frames : List Frame) (f : Failure) :
    ({ f with draft := frames ++ f.draft } : Failure).run (β := β) ρ skipping
      = enterAll ρ skipping frames >>= (f.run ρ ·) := by
  simp only [Failure.run, enterAll_append, bind_assoc]

/-- A failure is the same run, whatever was to be read. -/
theorem begins_run_failure (skipping : Bool) (f : Failure) :
    Run.Begins (f.run ρ skipping : Run α) (f.run ρ skipping : Run β) := by
  refine Run.Begins.bind fun _ ↦ ?_
  exact ⟨List.prefix_refl _, fun e h ↦ ⟨by simpa [Run.fail] using h, rfl⟩⟩

/-- A failure ends in its own error or in a name. -/
theorem run_failure_cases (skipping : Bool) (f : Failure) :
    (∃ skip calls, enterAll ρ skipping f.draft = ⟨.ok skip, calls⟩ ∧
      (f.run ρ skipping : Run β) = ⟨.error f.error, calls⟩) ∨
    ∃ e calls, e.isStructural = false ∧ (f.run ρ skipping : Run β) = ⟨.error e, calls⟩ := by
  unfold Failure.run
  have hnames := stopsAtNames_enterAll ρ f.draft skipping
  rcases hdraft : enterAll ρ skipping f.draft with ⟨e | skip, calls⟩
  · exact .inr ⟨e, calls, hnames e (by rw [hdraft]), rfl⟩
  · exact .inl ⟨skip, calls, rfl, by simp [Run.fail]⟩

/-! ## Parts -/

@[simp] theorem meaning_map_missing (evaluate : Bool → α → Run β) (skipping : Bool)
    (outcome : Except Failure (Part α)) (n : Nat) :
    meaning ρ evaluate skipping (outcome.map fun q ↦ { q with missing := n + q.missing })
      = meaning ρ evaluate skipping outcome := by
  cases outcome <;> rfl

theorem begins_meaning (evaluate : Bool → α → Run β) (skipping : Bool) (p : Part α) :
    Run.Begins (evaluate skipping p.value) (meaning ρ evaluate skipping (.ok p)) :=
  Run.begins_bind _ _

/-- **What is read in the middle of something is evaluated behind what is complete.** -/
theorem begins_within {frames : List Frame} {skipping : Bool} (evaluate : Bool → α → Run β)
    {evaluate' : Bool → γ → Run δ} (r : Reader α) {next : α → Reader γ} (ts : List Token)
    (hnext : ∀ p : Part α, Run.Begins (enterAll ρ skipping frames >>= (evaluate · p.value))
      (meaning ρ evaluate' skipping (next p.value p.rest))) :
    Run.Begins (enterAll ρ skipping frames >>= (meaning ρ evaluate · (r ts)))
      (meaning ρ evaluate' skipping ((within frames r >>= next) ts)) := by
  rw [bind_apply]
  cases hr : r ts with
  | error f =>
    rw [within_of_error frames hr, andThen_error]
    simp only [meaning, run_within]
    exact Run.Begins.bind fun skipping' ↦ begins_run_failure skipping' f
  | ok p =>
    rw [within_of_ok frames hr, andThen_ok, meaning_map_missing]
    simp only [meaning, ← bind_assoc]
    exact (hnext p).map _

/-! ## Pieces and what they become -/

/-- What is complete is evaluated first, whatever comes behind it. -/
theorem begins_after (skipping : Bool) (t : Tree) (next : Bool → Run α) :
    Run.Begins (t.evaluate ρ skipping) (enterAll ρ skipping [.after t] >>= next) := by
  rw [enterAll_singleton, Frame.enter, bind_assoc]
  exact Run.begins_bind _ _

theorem begins_right (skipping : Bool) (j : Joint) (left : Tree) (next : Bool → Run α) :
    Run.Begins (left.evaluate ρ skipping) (enterAll ρ skipping [.right j left] >>= next) := by
  rw [enterAll_singleton, Frame.enter, bind_assoc]
  exact Run.begins_bind _ _

/-- A group is its inside. -/
theorem begins_group (skipping : Bool) (t : Tree) :
    Run.Begins (enterAll ρ skipping [.after t]) (t.evaluate ρ skipping) := by
  rw [enterAll_singleton, Frame.enter]
  exact (Run.Begins.refl _).map _

/-- The arguments of a call are evaluated before its name is looked up. -/
theorem begins_call (skipping : Bool) (name : String) (ts : List Tree) (offset : Nat) :
    Run.Begins (enterAll ρ skipping (ts.map .after))
      ((call name ts offset).evaluate ρ skipping) := by
  rw [enterAll_map_after, evaluate]
  exact (Run.begins_bind _ _).map _

/-- The left operand of a joint is evaluated before the right one. -/
theorem begins_joined (skipping : Bool) (j : Joint) (left right : Tree) :
    Run.Begins (enterAll ρ skipping [.right j left] >>= (right.evaluate ρ ·))
      ((joined j left right).evaluate ρ skipping) := by
  rw [enterAll_singleton, Frame.enter, evaluate]
  simp only [bind_assoc, pure_bind]
  exact Run.Begins.bind fun v ↦ Run.begins_bind _ _

/-- The first argument is evaluated before the others. -/
theorem begins_cons (skipping : Bool) (t : Tree) (ts : List Tree) :
    Run.Begins (enterAll ρ skipping [.after t] >>= (evaluateAll ρ · ts))
      (evaluateAll ρ skipping (t :: ts)) := by
  rw [enterAll_singleton, Frame.enter, evaluateAll]
  simp only [bind_assoc, pure_bind]
  exact Run.Begins.bind fun v ↦ Run.begins_bind _ _

/-! ## Readers -/

/-- **What a row was given is evaluated first.** -/
theorem begins_rowFrom (l : Level) (operand : Reader Tree) (skipping : Bool) (n : Nat) :
    ∀ (left : Tree) (ts : List Token), Run.Begins (left.evaluate ρ skipping)
      (meaning ρ (evaluate ρ) skipping (rowFrom l operand n left ts)) := by
  induction n with
  | zero => exact fun left ts ↦ begins_meaning (evaluate ρ) skipping ⟨left, ts, 0⟩
  | succ n ih =>
    intro left ts
    cases hj : Joint.atLevel? l (front ts) with
    | none =>
      rw [rowFrom_end hj]
      exact begins_meaning (evaluate ρ) skipping ⟨left, ts, 0⟩
    | some j =>
      rw [rowFrom_joint hj]
      -- the left operand first, then the whole joint, which the rest of the row is given
      refine (begins_right skipping j left _).trans
        (begins_within (evaluate ρ) operand ts.tail fun p ↦ ?_)
      exact (begins_joined skipping j left p.value).trans (ih (.joined j left p.value) p.rest)

/-- What `c` closes off is evaluated, whether `c` finds what it looks for or not. -/
theorem begins_closed (c : Reader Unit) (skipping : Bool) {frames : List Frame} {t : Tree}
    (ts : List Token) (ht : Run.Begins (enterAll ρ skipping frames) (t.evaluate ρ skipping)) :
    Run.Begins (enterAll ρ skipping frames) (meaning ρ (evaluate ρ) skipping ((do
      within frames c
      return t : Reader Tree) ts)) := by
  refine (Run.begins_bind _ _).trans
    (begins_within (fun _ _ ↦ (pure () : Run Unit)) c ts fun p ↦ ?_)
  exact (ht.map _).trans (begins_meaning (evaluate ρ) skipping ⟨t, p.rest, 0⟩)

/-- A group is evaluated before it is closed. -/
theorem begins_closed_group (c : Reader Unit) (skipping : Bool) (t : Tree) (ts : List Token) :
    Run.Begins (t.evaluate ρ skipping) (meaning ρ (evaluate ρ) skipping ((do
      within [.after t] c
      return t : Reader Tree) ts)) := by
  have hafter := begins_after (ρ := ρ) skipping t pure
  rw [bind_pure] at hafter
  exact hafter.trans (begins_closed c skipping ts (begins_group skipping t))

/-- So are the arguments of a call. -/
theorem begins_closed_call (c : Reader Unit) (skipping : Bool) (name : String) (as : List Tree)
    (offset : Nat) (ts : List Token) :
    Run.Begins (evaluateAll ρ skipping as) (meaning ρ (evaluate ρ) skipping ((do
      within (as.map .after) c
      return call name as offset : Reader Tree) ts)) := by
  have harguments : Run.Begins (evaluateAll ρ skipping as)
      (enterAll ρ skipping (as.map .after)) := by
    rw [enterAll_map_after]
    exact Run.begins_bind _ _
  exact harguments.trans (begins_closed c skipping ts (begins_call skipping name as offset))

/-- What is negated is evaluated first. -/
theorem begins_negated (skipping : Bool) (t : Tree) (ts : List Token) :
    Run.Begins (t.evaluate ρ skipping)
      (meaning ρ (evaluate ρ) skipping ((pure (Tree.not t) : Reader Tree) ts)) := by
  refine Run.Begins.trans ?_ (begins_meaning (evaluate ρ) skipping ⟨.not t, ts, 0⟩)
  rw [evaluate]
  exact Run.begins_bind _ _

/-- The first argument is evaluated before the others are read. -/
theorem begins_arguments (skipping : Bool) (first : Tree) (others : Reader (List Tree))
    (ts : List Token) : Run.Begins (first.evaluate ρ skipping)
      (meaning ρ (evaluateAll ρ) skipping ((do
        comma
        let others ← within [.after first] others
        return first :: others : Reader (List Tree)) ts)) := by
  rw [bind_apply, comma, andThen_ok_zero]
  refine (begins_after skipping first _).trans
    (begins_within (evaluateAll ρ) others _ fun p ↦ ?_)
  exact (begins_cons skipping first p.value).trans
    (begins_meaning (evaluateAll ρ) skipping ⟨first :: p.value, p.rest, 0⟩)

/-! ## Whole lists of tokens -/

/-- What a report says of an evaluation, apart from the tokens left. -/
def Report.run (r : Report) : Run Value := ⟨r.result, r.calls⟩

/-- Evaluates a tree that was read as a whole, or what was read of it. -/
def outcomeRun (ρ : Scope) : Except Failure (Part Tree) → Run Value
  | .ok p => p.value.evaluate ρ false
  | .error f => f.run ρ false

theorem outcomeRun_eq (ρ : Scope) (outcome : Except Failure (Part Tree)) : outcomeRun ρ outcome
    = meaning ρ (evaluate ρ) false outcome >>= fun b ↦ pure b.1 := by
  cases outcome with
  | ok p => simp only [outcomeRun, meaning, bind_assoc, pure_bind, bind_pure]
  | error f => simp only [outcomeRun, meaning, Failure.run, bind_assoc, Run.fail_bind]

theorem begins_outcomeRun (outcome : Except Failure (Part Tree)) :
    Run.Begins (meaning ρ (evaluate ρ) false outcome) (outcomeRun ρ outcome) := by
  rw [outcomeRun_eq]
  exact Run.begins_bind _ _

/-- An error of form is the one with which reading failed. -/
theorem outcomeRun_eq_structural {ρ : Scope} {outcome : Except Failure (Part Tree)} {e : EvalError}
    (h : (outcomeRun ρ outcome).result = .error e) (he : e.isStructural) :
    ∃ f, outcome = .error f ∧ f.error = e := by
  cases outcome with
  | ok p =>
    have hname := stopsAtNames_evaluate ρ p.value false e h
    exact absurd he (by simp [hname])
  | error f =>
    rw [outcomeRun] at h
    rcases run_failure_cases (ρ := ρ) (β := Value) false f with
      ⟨skipping, calls, -, hrun⟩ | ⟨e', calls, hname, hrun⟩
    · rw [hrun] at h
      exact ⟨f, rfl, Except.error.inj h⟩
    · rw [hrun] at h
      obtain rfl : e' = e := Except.error.inj h
      exact absurd he (by simp [hname])

/-- A report is what the two phases come to. Which tokens are left behind a name that stands for
nothing is not a question of reading. -/
structure Report.Agrees (ρ : Scope) (outcome : Except Failure (Part Tree)) (r : Report) : Prop where
  run : r.run = outcomeRun ρ outcome
  unread_of_ok : ∀ v, r.result = .ok v → ∃ p, outcome = .ok p ∧ r.unread = p.rest
  unread_of_structural : ∀ e, r.result = .error e → e.isStructural →
    ∃ f, outcome = .error f ∧ r.unread = f.unread

/-- An error of form is that of the reading, and at its place. -/
theorem Report.Agrees.eq_error {outcome : Except Failure (Part Tree)} {r : Report}
    (h : r.Agrees ρ outcome) {e : EvalError} (hresult : r.result = .error e)
    (he : e.isStructural) : ∃ f, outcome = .error f ∧ f.error = e ∧ r.unread = f.unread := by
  obtain ⟨f, hf, hunread⟩ := h.unread_of_structural e hresult he
  have hrun := (congrArg Run.result h.run).symm.trans hresult
  obtain ⟨f', hf', herror⟩ := outcomeRun_eq_structural hrun he
  obtain rfl := Except.error.inj (hf.symm.trans hf')
  exact ⟨f, hf, herror, hunread⟩

end Formula
