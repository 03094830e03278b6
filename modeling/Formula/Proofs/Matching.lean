import Formula.Proofs.Meaning
import Formula.Proofs.Steps

/-!
# Steps and outcomes of reading

The evaluation reads and computes at once. `Matches` compares the state after a step with the
outcome of reading the same tokens: the run of the outcome says everything about the step except the
state that a failure leaves, of which only the calls count, and the tokens if the failure is one of
form. A step that succeeds has changed nothing but the tokens and the calls; the depth and the
passing over are what they were.

Steps that match follow one another as readers do. What a level adds to that is in `Matches.round`
for a joint, in `Matches.closed` for what closes a part off, and in the two changes of the state
that a level undoes again.
-/

namespace Formula

open Formula.Tree Reader

variable {α β γ δ : Type}

/-- The result of a step from `s` is what an outcome of reading comes to. -/
def Matches (ρ : Scope) (evaluate : Bool → α → Run β) (skipping : Bool) (s : Progress)
    (outcome : Except Failure (Part α)) : EStateM.Result EvalError Progress β → Prop
  | .ok b s' => ∃ calls, meaning ρ evaluate skipping outcome = ⟨.ok (b, s'.rest), calls⟩ ∧
      s' = { s with rest := s'.rest, calls := s.calls ++ calls }
  | .error e s' => ∃ calls, meaning ρ evaluate skipping outcome = ⟨.error e, calls⟩ ∧
      s'.calls = s.calls ++ calls ∧
      (e.isStructural → ∃ f, outcome = .error f ∧ f.unread = s'.rest)

namespace Matches

variable {ρ : Scope} {evaluate : Bool → α → Run β} {skipping : Bool} {s : Progress}
  {outcome : Except Failure (Part α)}

/-- A step that succeeds follows a part that was read. -/
theorem eq_ok {b : β} {s' : Progress} (h : Matches ρ evaluate skipping s outcome (.ok b s')) :
    ∃ p calls, outcome = .ok p ∧ evaluate skipping p.value = ⟨.ok b, calls⟩ ∧
      s' = { s with rest := p.rest, calls := s.calls ++ calls } := by
  obtain ⟨calls, hmeaning, hs'⟩ := h
  cases outcome with
  | error f =>
    -- the run of a failure is stopped, by the failure or before it, and has no value
    rcases run_failure_cases (ρ := ρ) (β := β × List Token) skipping f with
      ⟨-, calls', -, hrun⟩ | ⟨e, calls', -, hrun⟩ <;>
    · rw [meaning, hrun] at hmeaning
      exact absurd (congrArg Run.result hmeaning) (by simp)
  | ok p =>
    rw [meaning] at hmeaning
    rcases hvalue : evaluate skipping p.value with ⟨e | b', calls'⟩
    · rw [hvalue] at hmeaning
      exact absurd (congrArg Run.result hmeaning) (by simp)
    · rw [hvalue, Run.bind_ok] at hmeaning
      obtain ⟨hresult, hcalls⟩ := Run.mk.inj hmeaning
      obtain ⟨rfl, hrest⟩ : b' = b ∧ p.rest = s'.rest := by simpa [Run.pure_eq] using hresult
      refine ⟨p, calls', rfl, hvalue, ?_⟩
      rw [hs', ← hcalls]
      simp [Run.pure_eq, hrest]

theorem of_ok {p : Part α} {b : β} {calls : List Call}
    (h : evaluate skipping p.value = ⟨.ok b, calls⟩) : Matches ρ evaluate skipping s (.ok p)
      (.ok b { s with rest := p.rest, calls := s.calls ++ calls }) := by
  refine ⟨calls, ?_, rfl⟩
  rw [meaning, h]
  simp [Run.pure_eq]

/-- A step that reads no more than a reader of nothing. -/
theorem of_unit (s : Progress) (rest : List Token) (n : Nat) :
    Matches ρ (fun _ _ ↦ (pure () : Run Unit)) skipping s (.ok ⟨(), rest, n⟩)
      (.ok () { s with rest }) :=
  ⟨[], rfl, by rw [List.append_nil]⟩

/-- A failure at once is the same failure. -/
theorem of_error (s : Progress) (e : EvalError) :
    Matches ρ evaluate skipping s (.error ⟨e, [], s.rest⟩) (.error e s) :=
  ⟨[], rfl, (List.append_nil _).symm, fun _ ↦ ⟨_, rfl, rfl⟩⟩

/-- A run behind what was read is what the whole part comes to. -/
theorem of_ofRun {p : Part α} {r : Run β} {calls₀ : List Call}
    (h : evaluate skipping p.value = ⟨.ok (), calls₀⟩ >>= fun _ ↦ r) (hr : r.StopsAtNames) :
    Matches ρ evaluate skipping s (.ok p)
      (Step.ofRun r { s with rest := p.rest, calls := s.calls ++ calls₀ }) := by
  obtain ⟨e | b, calls⟩ := r
  · refine ⟨calls₀ ++ calls, ?_, List.append_assoc _ _ _, fun he ↦ ?_⟩
    · rw [meaning, h]
      rfl
    · rw [hr e rfl] at he
      exact absurd he (by simp)
  · refine ⟨calls₀ ++ calls, ?_, ?_⟩
    · rw [meaning, h]
      simp [Run.pure_eq]
    · simp only [List.append_assoc]

/-- What was tolerated in a part does not show in its run. -/
theorem map_missing {res : EStateM.Result EvalError Progress β} (n : Nat)
    (h : Matches ρ evaluate skipping s outcome res) : Matches ρ evaluate skipping s
      (outcome.map fun q ↦ { q with missing := n + q.missing }) res := by
  cases res with
  | ok b s' => simpa only [Matches, meaning_map_missing] using h
  | error e s' =>
    obtain ⟨calls, hmeaning, hs', hform⟩ := h
    refine ⟨calls, by rw [meaning_map_missing, hmeaning], hs', fun he ↦ ?_⟩
    obtain ⟨f, rfl, hunread⟩ := hform he
    exact ⟨f, rfl, hunread⟩

/-- **One step behind another, in the middle of something.** What is complete is `frames`, and it
has been evaluated with the calls `calls₀`. If the first step fails, so does whatever the reader
goes on to; that is what `hnext` is for. -/
theorem bind_within {frames : List Frame} {skipping' : Bool} {calls₀ : List Call}
    {t : Progress} {x : Step β} {f : β → Step δ} {r : Reader α} {ts : List Token}
    {next : α → Reader γ} {evaluate' : Bool → γ → Run δ}
    (hframes : enterAll ρ skipping frames = ⟨.ok skipping', calls₀⟩)
    (ht : t = { s with rest := t.rest, calls := s.calls ++ calls₀ })
    (hx : Matches ρ evaluate skipping' t (r ts) (x t))
    (hnext : ∀ p : Part α, Run.Begins (enterAll ρ skipping frames >>= (evaluate · p.value))
      (meaning ρ evaluate' skipping (next p.value p.rest)))
    (hok : ∀ p b calls, r ts = .ok p → evaluate skipping' p.value = ⟨.ok b, calls⟩ →
      Matches ρ evaluate' skipping s (next p.value p.rest)
        (f b { s with rest := p.rest, calls := s.calls ++ (calls₀ ++ calls) })) :
    Matches ρ evaluate' skipping s ((within frames r >>= next) ts) ((x >>= f) t) := by
  cases hres : x t with
  | error e s' =>
    rw [hres] at hx
    obtain ⟨calls, hmeaning, hs', hform⟩ := hx
    -- the reader may well go on behind a name that stopped the step, but what it then comes to
    -- begins with the run up to that name, and that run was stopped
    have hbegins := begins_within evaluate r ts hnext
    rw [hframes, Run.bind_ok, hmeaning] at hbegins
    rw [Step.bind_of_error hres]
    refine ⟨calls₀ ++ calls, hbegins.eq_of_error, ?_, fun he ↦ ?_⟩
    · rw [hs', ht, List.append_assoc]
    · obtain ⟨f, hf, hunread⟩ := hform he
      refine ⟨{ f with draft := frames ++ f.draft }, ?_, hunread⟩
      rw [bind_apply, within_of_error frames hf, andThen_error]
  | ok b s' =>
    rw [hres] at hx
    obtain ⟨p, calls, hp, hvalue, hs'⟩ := hx.eq_ok
    rw [Step.bind_of_ok hres, hs', ht, bind_apply, within_of_ok _ hp, andThen_ok,
      List.append_assoc]
    exact (hok p b calls hp hvalue).map_missing _

/-- One step behind another. -/
theorem bind {t : Progress} {x : Step β} {f : β → Step δ} {r : Reader α} {ts : List Token}
    {next : α → Reader γ} {evaluate' : Bool → γ → Run δ}
    (ht : t = { s with rest := t.rest })
    (hx : Matches ρ evaluate skipping t (r ts) (x t))
    (hnext : ∀ p : Part α, Run.Begins (evaluate skipping p.value)
      (meaning ρ evaluate' skipping (next p.value p.rest)))
    (hok : ∀ p b calls, r ts = .ok p → evaluate skipping p.value = ⟨.ok b, calls⟩ →
      Matches ρ evaluate' skipping s (next p.value p.rest)
        (f b { s with rest := p.rest, calls := s.calls ++ calls })) :
    Matches ρ evaluate' skipping s ((r >>= next) ts) ((x >>= f) t) := by
  have hframes : enterAll ρ skipping [] = ⟨.ok skipping, []⟩ := rfl
  rw [← within_nil r]
  refine bind_within hframes (by rw [List.append_nil]; exact ht) hx (fun p ↦ ?_) hok
  exact (pure_bind skipping (evaluate · p.value)).symm ▸ hnext p

/-- A step in a changed state, and the change undone behind it. -/
theorem changed {t : Progress} {x : Step β} {undo : Progress → Progress}
    (hcalls : t.calls = s.calls)
    (hundo : ∀ rest calls, undo { t with rest, calls } = { s with rest, calls })
    (hx : Matches ρ evaluate skipping t outcome (x t)) : Matches ρ evaluate skipping s outcome
      ((do
        let a ← x
        modify undo
        return a : Step β) t) := by
  cases hres : x t with
  | error e s' =>
    rw [hres] at hx
    rw [Step.bind_of_error hres]
    obtain ⟨calls, hmeaning, hs', hform⟩ := hx
    exact ⟨calls, hmeaning, hcalls ▸ hs', hform⟩
  | ok b s' =>
    rw [hres] at hx
    obtain ⟨p, calls, rfl, hvalue, rfl⟩ := hx.eq_ok
    rw [Step.bind_of_ok hres]
    have hback : undo { t with rest := p.rest, calls := t.calls ++ calls }
        = { s with rest := p.rest, calls := s.calls ++ calls } := by rw [hundo, hcalls]
    have hok : Matches ρ evaluate skipping s (.ok p)
        (.ok b (undo { t with rest := p.rest, calls := t.calls ++ calls })) := by
      rw [hback]
      exact of_ok hvalue
    exact hok

/-- A step one level deeper. -/
theorem nested {σ : Setting} {x : Step β} (hdepth : s.depth < σ.options.maxDepth)
    (hx : Matches ρ evaluate skipping { s with depth := s.depth + 1 } outcome
      (x { s with depth := s.depth + 1 })) :
    Matches ρ evaluate skipping s outcome (Step.nested σ x s) := by
  rw [Step.nested_of_lt σ x hdepth]
  exact changed rfl (fun _ _ ↦ rfl) hx

/-- A step that would go too deep. -/
theorem tooDeep {σ : Setting} {x : Step β} (hdepth : σ.options.maxDepth ≤ s.depth) :
    Matches ρ evaluate skipping s (σ.grammar.tooDeep s.rest) (Step.nested σ x s) := by
  rw [Step.nested_of_le σ x hdepth]
  exact of_error s _

/-- A step in which operands are passed over. -/
theorem skippingIf {x : Step β} {b : Bool} (hskipping : skipping = (s.skipping || b))
    (hx : Matches ρ evaluate skipping { s with skipping } outcome (x { s with skipping })) :
    Matches ρ evaluate skipping s outcome (Step.skippingIf b x s) := by
  rw [Step.skippingIf_apply, ← hskipping]
  exact changed rfl (fun _ _ ↦ rfl) hx

end Matches

/-! ## Joints -/

namespace Matches

variable {σ : Setting} {s : Progress}

/-- **One round.** The tree on the left has been evaluated; what `again` does with the next one is
what the row does with it. -/
theorem round {l : Level} {r : Reader Tree} {x : Joint → Value → Step Value}
    {again : Value → Step Value} {ts : List Token} {n : Nat} {left : Tree} {v : Value}
    {calls : List Call} (hleft : left.evaluate σ.scope s.skipping = ⟨.ok v, calls⟩)
    (hx : ∀ j, Joint.atLevel? l (front ts) = some j →
      Matches σ.scope (Tree.evaluate σ.scope)
        (s.skipping || σ.options.shortCircuit && j.isDecidedBy v)
        { s with rest := ts.tail, calls := s.calls ++ calls } (r ts.tail)
        (x j v { s with rest := ts.tail, calls := s.calls ++ calls }))
    (hagain : ∀ j p v' calls', Joint.atLevel? l (front ts) = some j → r ts.tail = .ok p →
      (Tree.joined j left p.value).evaluate σ.scope s.skipping = ⟨.ok v', calls'⟩ →
      Matches σ.scope (Tree.evaluate σ.scope) s.skipping s
        (rowFrom l r n (.joined j left p.value) p.rest)
        (again v' { s with rest := p.rest, calls := s.calls ++ calls' })) :
    Matches σ.scope (Tree.evaluate σ.scope) s.skipping s (rowFrom l r (n + 1) left ts)
      (Step.round l x again v { s with rest := ts, calls := s.calls ++ calls }) := by
  cases hj : Joint.atLevel? l (front ts) with
  | none =>
    rw [rowFrom_end hj, Step.round_end hj]
    exact of_ok hleft
  | some j =>
    rw [rowFrom_joint hj, Step.round_joint hj]
    have hframes := (enterAll_singleton _ _).trans (enter_right (j := j) hleft)
    refine bind_within hframes rfl (hx j hj) (fun p ↦ ?_) fun p w calls' hp hvalue ↦ ?_
    · exact (begins_joined _ j left p.value).trans (begins_rowFrom l r _ n _ p.rest)
    · refine hagain j p _ _ hj hp ?_
      have hright : p.value.evaluate σ.scope
          (s.skipping || σ.scope.shortCircuit && j.isDecidedBy v) = ⟨.ok w, calls'⟩ := hvalue
      rw [Tree.evaluate, hleft, Run.bind_ok, hright, Run.bind_ok, Run.pure_eq, List.append_nil]

end Matches

/-! ## What closes a part off -/

namespace Matches

variable {ρ : Scope} {skipping : Bool}

/-- A part that `c` closes off, and what `x` does behind it. -/
theorem closed {s : Progress} {ts : List Token} {frames : List Frame} {calls : List Call}
    {tree : Tree} {c : Reader Unit} {y : Step Unit} {x : Step Value}
    (hy : ∀ t : Progress, Matches ρ (fun _ _ ↦ (pure () : Run Unit)) skipping t (c t.rest) (y t))
    (hframes : enterAll ρ s.skipping frames = ⟨.ok skipping, calls⟩)
    (htree : Run.Begins (enterAll ρ s.skipping frames) (tree.evaluate ρ s.skipping))
    (hx : ∀ rest, Matches ρ (Tree.evaluate ρ) s.skipping s (.ok ⟨tree, rest, 0⟩)
      (x { s with rest, calls := s.calls ++ calls })) :
    Matches ρ (Tree.evaluate ρ) s.skipping s
      ((do
        within frames c
        return tree : Reader Tree) ts)
      ((do
        y
        x) { s with rest := ts, calls := s.calls ++ calls }) := by
  refine bind_within hframes rfl (hy _) (fun p ↦ ?_) fun p _ calls' _ hvalue ↦ ?_
  · exact (htree.map _).trans (begins_meaning (Tree.evaluate ρ) s.skipping ⟨tree, p.rest, 0⟩)
  · obtain rfl : ([] : List Call) = calls' := congrArg Run.calls hvalue
    rw [List.append_nil]
    exact hx p.rest

theorem closeParen (σ : Setting) (s : Progress) :
    Matches ρ (fun _ _ ↦ (pure () : Run Unit)) skipping s (σ.grammar.closing s.rest)
      (Step.closeParen σ s) := by
  rw [Step.closeParen_apply, Grammar.closing]
  have htolerated : Matches ρ (fun _ _ ↦ (pure () : Run Unit)) skipping s
      (if σ.grammar.strict then .error ⟨.unclosedParen (σ.grammar.position s.rest), [], s.rest⟩
      else .ok ⟨(), s.rest, 1⟩)
      (if σ.options.strict then .error (.unclosedParen (σ.grammar.position s.rest)) s
      else .ok () s) := by
    by_cases hstrict : σ.options.strict = true
    · rw [if_pos (show σ.grammar.strict = true from hstrict), if_pos hstrict]
      exact of_error s _
    · rw [if_neg (show ¬σ.grammar.strict = true from hstrict), if_neg hstrict]
      exact of_unit s _ _
  cases front s.rest
  case closeParen => exact of_unit s _ _
  all_goals exact htolerated

theorem ending (σ : Setting) (s : Progress) :
    Matches ρ (fun _ _ ↦ (pure () : Run Unit)) skipping s (σ.grammar.ending s.rest)
      (Step.ending σ s) := by
  obtain ⟨_ | ⟨t, ts⟩, depth, skipping', calls⟩ := s
  · exact of_unit _ _ _
  · by_cases hstrict : σ.options.strict = true
    · simp only [Step.ending, Grammar.ending, Setting.grammar, hstrict, if_true]
      exact of_error _ _
    · simp only [Step.ending, Grammar.ending, Setting.grammar, hstrict]
      exact of_unit _ _ _

end Matches

end Formula
