import Formula.Proofs.Curtailing
import Formula.Proofs.Law
import Formula.Proofs.TwoPhases

/-!
# The limit on nesting

The limit is only a limit. A reading under a smaller one is the reading under a larger one, or is
given up where a level more would have to be opened, and what was evaluated up to there is evaluated
in the same way by the other (`curtails_read`). Levels are opened by `(` and by `not` and by nothing
else, each of them by a token of its own, so a limit above the number of these tokens is never met.
The second is a law of reading (`shallow`): as many levels are left as there are such tokens in
front, and one more.
-/

namespace Formula

open Formula.Tree Reader

/-- Whether an error says that an expression nests too deep. -/
def EvalError.IsTooDeep (e : EvalError) : Prop := ∃ limit offset, e = .depthExceeded limit offset

/-! ## A smaller limit -/

namespace Grammar

variable {g g' : Grammar}

/-- Going too deep is a way to give up, whatever the other reader does. -/
theorem curtailed_tooDeep_left {r : Reader Tree} (hr : g'.Locates r) :
    Curtailed EvalError.IsTooDeep False Tree.evaluate g.tooDeep r :=
  fun ts ↦ .early _ _ ⟨_, _, rfl⟩ (fun h ↦ h.elim) (hr.unread_suffix ts) fun ρ skipping ↦
    ⟨List.nil_prefix, fun e he ↦ absurd he (by simp [enterAll, Run.pure_eq])⟩

/-- Where nothing is counted, an outcome compares with itself. -/
theorem curtailed_refl {α β : Type} (stops : EvalError → Prop)
    (evaluate : Scope → Bool → α → Run β) (r : Reader α) :
    Curtailed stops False evaluate r r := by
  intro ts
  cases r ts with
  | ok p => exact .complete p fun h ↦ h.elim
  | error f => exact .failed f

theorem closing_eq (hstrict : g.strict = g'.strict) (hend : g.endOffset = g'.endOffset) :
    g.closing = g'.closing := by
  funext ts
  rw [closing, closing, hstrict, position_eq hend]

theorem ending_eq (hstrict : g.strict = g'.strict) : g.ending = g'.ending := by
  funext ts
  cases ts with
  | nil => rfl
  | cons t ts => rw [ending, ending, hstrict]

theorem curtailed_term_le (hstrict : g.strict = g'.strict) (hend : g.endOffset = g'.endOffset)
    (depth : Nat) : ∀ depth', depth ≤ depth' →
      Curtailed EvalError.IsTooDeep False Tree.evaluate (g.term depth) (g'.term depth') := by
  have hclosing : Curtailed EvalError.IsTooDeep False (fun _ _ _ ↦ (pure () : Run Unit))
      g.closing g'.closing := by
    rw [closing_eq hstrict hend]
    exact curtailed_refl _ _ _
  induction depth with
  | zero =>
    intro depth' _
    rw [term_eq, term_eq]
    have hnegated : g'.Locates (g'.negated depth') := by
      cases depth' with
      | zero => exact locates_tooDeep
      | succ k => exact locates_term k
    exact curtailed_termOver hend hclosing (curtailed_tooDeep_left hnegated)
      (curtailed_tooDeep_left (locates_expression depth')) (locates_expression depth')
  | succ depth ih =>
    intro depth' hle
    obtain ⟨k, rfl⟩ : ∃ k, depth' = k + 1 := ⟨depth' - 1, by omega⟩
    have hterm := ih k (by omega)
    exact curtailed_termOver hend hclosing hterm (curtailed_expressionOver hterm (locates_term k))
      (locates_expressionOver (locates_term k))

/-- **With fewer levels to open, an expression is read alike or goes too deep.** -/
theorem curtailed_expression_le (hstrict : g.strict = g'.strict)
    (hend : g.endOffset = g'.endOffset) {depth depth' : Nat} (hle : depth ≤ depth') :
    Curtailed EvalError.IsTooDeep False Tree.evaluate (g.expression depth)
      (g'.expression depth') := by
  cases depth with
  | zero => exact curtailed_tooDeep_left (locates_expression depth')
  | succ depth =>
    obtain ⟨k, rfl⟩ : ∃ k, depth' = k + 1 := ⟨depth' - 1, by omega⟩
    exact curtailed_expressionOver (curtailed_term_le hstrict hend depth k (by omega))
      (locates_term k)

end Grammar

/-- A whole reading under a smaller limit. -/
theorem curtails_read (tokens : List Token) (strict : Bool) {limit limit' : Nat}
    (hle : limit ≤ limit') : Curtails EvalError.IsTooDeep False Tree.evaluate
      (Tree.read tokens strict limit) (Tree.read tokens strict limit') := by
  have hending : Curtailed EvalError.IsTooDeep False (fun _ _ _ ↦ (pure () : Run Unit))
      (Grammar.ending ⟨strict, limit, endOffset tokens⟩)
      (Grammar.ending ⟨strict, limit', endOffset tokens⟩) := by
    rw [Grammar.ending_eq rfl]
    exact Grammar.curtailed_refl _ _ _
  have hexpression : Curtailed EvalError.IsTooDeep False Tree.evaluate
      (Grammar.expression ⟨strict, limit, endOffset tokens⟩ limit)
      (Grammar.expression ⟨strict, limit', endOffset tokens⟩ limit') :=
    Grammar.curtailed_expression_le (by rfl) (by rfl) hle
  exact Curtails.bind (hexpression (beforeEnd tokens))
    (fun t rest ↦ curtailed_closed hending (fun _ skipping ↦ begins_group skipping t) rest)
    (fun t rest ↦ (Grammar.locates_ending.closed [.after t] t).unread_suffix rest)
    fun ρ skipping p ↦ begins_closed_group _ _ _ _

/-! ## A limit that is not met -/

/-- How many tokens may open a level. -/
def openings (ts : List Token) : Nat := ts.countP (·.kind.opensLevel)

theorem openings_tail {ts : List Token} (h : (front ts).opensLevel) :
    openings ts = openings ts.tail + 1 := by
  cases ts with
  | nil => exact absurd h (by decide)
  | cons t ts => exact List.countP_cons_of_pos h

/-- There are more levels to open than tokens that could open one. -/
def shallow : Law where
  tokens n ts := openings ts < n
  tree _ := True
  error e := ¬e.IsTooDeep

theorem shallow_local (g : Grammar) : shallow.Local g where
  suffix h hsuffix := Nat.lt_of_le_of_lt hsuffix.sublist.countP_le h
  opened h hopens := by
    have hcount := openings_tail hopens
    simp only [shallow] at h ⊢
    omega
  literal _ := trivial
  named _ _ _ := trivial
  call _ _ _ _ := trivial
  not _ := trivial
  joined _ _ := trivial
  unexpected _ _ := by rintro ⟨_, _, h⟩; exact absurd h (by simp)
  tooDeep h := absurd h (Nat.not_lt_zero _)
  unclosed _ _ _ := by rintro ⟨_, _, h⟩; exact absurd h (by simp)
  trailing _ _ := by rintro ⟨_, _, h⟩; exact absurd h (by simp)

/-- **Where fewer levels can be opened than the limit allows, nothing goes too deep.** -/
theorem not_isTooDeep_of_read {tokens : List Token} {strict : Bool} {limit : Nat} {f : Failure}
    (h : openings (beforeEnd tokens) < limit) (hread : Tree.read tokens strict limit = .error f) :
    ¬f.error.IsTooDeep := by
  have hlaw := (shallow_local ⟨strict, limit, endOffset tokens⟩).read h
  rw [hread] at hlaw
  exact hlaw.1

/-! ## Evaluating -/

theorem EvalError.IsTooDeep.isStructural {e : EvalError} (h : e.IsTooDeep) : e.isStructural := by
  obtain ⟨limit, offset, rfl⟩ := h
  rfl

/-- How an evaluation compares with one under a larger limit: they come to the same, or the first
went too deep and the other one went on from there. -/
inductive Report.Deepens (deeper report : Report) : Prop
  | same (hrun : deeper.run = report.run)
  | further (e : EvalError) (hresult : report.result = .error e) (he : e.IsTooDeep)
    (hcalls : report.calls <+: deeper.calls)
    (hunread : ∀ e', deeper.result = .error e' → e'.isStructural → deeper.unread <:+ report.unread)

/-- Reports compare as the readings do. -/
theorem Curtails.deepens {o o' : Except Failure (Part Tree)}
    (h : Curtails EvalError.IsTooDeep False Tree.evaluate o o') {ρ : Scope}
    {report deeper : Report} (hr : report.Agrees ρ o) (hd : deeper.Agrees ρ o') :
    deeper.Deepens report := by
  have hrun := hr.run
  have hrun' := hd.run
  cases h with
  | complete p _ => exact .same (hrun'.trans hrun.symm)
  | failed f => exact .same (hrun'.trans hrun.symm)
  | early f _ hdeep _ hunread hbegins =>
    rw [outcomeRun, Failure.run] at hrun
    have hdraft := (hbegins ρ false).trans (begins_outcomeRun o')
    rw [← hrun'] at hdraft
    rcases henter : enterAll ρ false f.draft with ⟨e | skipping, calls⟩
    · -- a name in what both have read stops both, before the depth could show
      rw [henter] at hrun hdraft
      exact .same (hdraft.eq_of_error.trans hrun.symm)
    · rw [henter] at hrun hdraft
      have hruns : report.run = ⟨.error f.error, calls⟩ := by
        rw [hrun]
        simp [Run.fail]
      have hresult : report.result = .error f.error := congrArg Run.result hruns
      have hcalls : report.calls = calls := congrArg Run.calls hruns
      obtain ⟨f₀, hf₀, hleft⟩ := hr.unread_of_structural _ hresult hdeep.isStructural
      obtain rfl := Except.error.inj hf₀
      refine .further f.error hresult hdeep (hcalls ▸ hdraft.prefix_calls) fun e' he' hform ↦ ?_
      obtain ⟨f', rfl, hleft'⟩ := hd.unread_of_structural e' he' hform
      rw [hleft, hleft']
      exact hunread

section Whole

variable (tokens : List Token) (bindings : Table Value) (functions : Table Callable)
  (options : Options)

theorem deepens_evaluateTokens {limit limit' : Nat} (hle : limit ≤ limit') :
    Report.Deepens
      (evaluateTokens tokens bindings functions { options with maxDepth := limit' })
      (evaluateTokens tokens bindings functions { options with maxDepth := limit }) :=
  (curtails_read tokens options.strict hle).deepens
    (agrees_evaluateTokens tokens bindings functions { options with maxDepth := limit })
    (agrees_evaluateTokens tokens bindings functions { options with maxDepth := limit' })

/-- An evaluation that goes too deep says so with its own limit, at the token in front of what it
leaves unread. -/
theorem limit_eq_of_tooDeep {limit offset : Nat}
    (h : (evaluateTokens tokens bindings functions options).result
      = .error (.depthExceeded limit offset)) :
    limit = options.maxDepth ∧
      (evaluateTokens tokens bindings functions options).unread <:+ beforeEnd tokens ∧
      offset = Grammar.position ⟨options.strict, options.maxDepth, endOffset tokens⟩
        (evaluateTokens tokens bindings functions options).unread := by
  have hagrees := agrees_evaluateTokens tokens bindings functions options
  obtain ⟨f, hread, herror, hunread⟩ := hagrees.eq_error h rfl
  obtain ⟨hsuffix, hblames⟩ := Tree.blames_read hread
  rw [hunread]
  rw [herror] at hblames
  generalize f.unread = us at hblames hsuffix
  cases hblames with
  | tooDeep us => exact ⟨rfl, hsuffix, rfl⟩

/-- An evaluation with fewer openings in front than its limit does not go too deep. -/
theorem not_isTooDeep_of_openings_lt (h : openings (beforeEnd tokens) < options.maxDepth)
    {e : EvalError} (he : (evaluateTokens tokens bindings functions options).result = .error e) :
    ¬e.IsTooDeep := by
  intro hdeep
  have hagrees := agrees_evaluateTokens tokens bindings functions options
  obtain ⟨f, hread, rfl, -⟩ := hagrees.eq_error he hdeep.isStructural
  exact not_isTooDeep_of_read h hread hdeep

end Whole

/-- **The limit on nesting is only a limit.** An evaluation that does not meet it comes to the same
under every larger one. One that meets it names it, and under a larger limit makes the same calls
before any others and meets that one, if at all, at no earlier token. And a limit above the number
of tokens that open a level is never met. -/
theorem evaluateTokens_maxDepth (tokens : List Token) (bindings : Table Value)
    (functions : Table Callable) (options : Options) :
    let under := fun limit ↦
      evaluateTokens tokens bindings functions { options with maxDepth := limit }
    (∀ limit limit', limit ≤ limit' →
      (∀ n offset, (under limit).result ≠ .error (.depthExceeded n offset)) →
      (under limit').result = (under limit).result ∧ (under limit').calls = (under limit).calls) ∧
    (∀ limit n offset, (under limit).result = .error (.depthExceeded n offset) →
      n = limit ∧ (under limit).unread <:+ beforeEnd tokens ∧
        offset = Grammar.position ⟨options.strict, limit, endOffset tokens⟩ (under limit).unread ∧
        ∀ limit', limit < limit' → (under limit).calls <+: (under limit').calls ∧
          ∀ n' offset', (under limit').result = .error (.depthExceeded n' offset') →
            (under limit').unread <:+ (under limit).unread) ∧
    ∀ limit, 1 + openings (beforeEnd tokens) ≤ limit →
      ∀ n offset, (under limit).result ≠ .error (.depthExceeded n offset) := by
  intro under
  refine ⟨fun limit limit' hle hnot ↦ ?_, fun limit n offset hdeep ↦ ?_,
    fun limit hlt n offset hdeep ↦ ?_⟩
  · cases deepens_evaluateTokens tokens bindings functions options hle with
    | same hrun => exact ⟨congrArg Run.result hrun, congrArg Run.calls hrun⟩
    | further e hresult he =>
      obtain ⟨n, offset, rfl⟩ := he
      exact absurd hresult (hnot n offset)
  · obtain ⟨hlimit, hunread, hoffset⟩ := limit_eq_of_tooDeep tokens bindings functions _ hdeep
    obtain rfl : n = limit := hlimit
    refine ⟨rfl, hunread, hoffset, fun limit' hlt ↦ ?_⟩
    cases deepens_evaluateTokens tokens bindings functions options (Nat.le_of_lt hlt) with
    | same hrun =>
      -- the two would have to name the same limit
      have hdeep' : (under limit').result = .error (.depthExceeded n offset) :=
        (congrArg Run.result hrun).trans hdeep
      obtain ⟨heq, -⟩ := limit_eq_of_tooDeep tokens bindings functions _ hdeep'
      exact absurd heq (Nat.ne_of_lt hlt)
    | further e _ _ hcalls hleft =>
      exact ⟨hcalls, fun n' offset' hdeep' ↦ hleft _ hdeep' rfl⟩
  · have hlt' : openings (beforeEnd tokens) < limit := by omega
    exact not_isTooDeep_of_openings_lt tokens bindings functions { options with maxDepth := limit }
      hlt' hdeep ⟨n, offset, rfl⟩

end Formula
