import Formula.Proofs.Curtailing
import Formula.Proofs.TwoPhases

/-!
# Strictness

A strict evaluation is a lenient one with two more ways to be rejected: for a closing bracket that
is missing, and for tokens that are left over. The second is simple, since it comes last. The first
is not, because the lenient evaluation goes on behind a missing bracket with something else than the
strict one would have read. So the two readings are compared up to there (`Curtailed`), and
a missing bracket that was done without is counted.
-/

namespace Formula

open Formula.Tree Reader

/-! ## Reading -/

/-- Whether an error says that a closing bracket is missing. -/
def EvalError.IsUnclosed (e : EvalError) : Prop := ∃ offset, e = .unclosedParen offset

namespace Grammar

variable (maxDepth endOffset : Nat)

theorem curtailed_closing : Curtailed EvalError.IsUnclosed True (fun _ _ _ ↦ (pure () : Run Unit))
    (closing ⟨true, maxDepth, endOffset⟩) (closing ⟨false, maxDepth, endOffset⟩) := by
  intro ts
  have htolerated : Curtails EvalError.IsUnclosed True (fun _ _ _ ↦ (pure () : Run Unit))
      (.error ⟨.unclosedParen (position ⟨true, maxDepth, endOffset⟩ ts), [], ts⟩)
      (.ok ⟨(), ts, 1⟩) := by
    refine .early _ _ ⟨_, rfl⟩ (fun _ p hp ↦ ?_) (List.suffix_refl ts) fun ρ skipping ↦ ?_
    · obtain rfl := Except.ok.inj hp
      exact Nat.one_pos
    · exact ⟨List.nil_prefix, fun e he ↦ absurd he (by simp [enterAll, Run.pure_eq])⟩
  unfold closing
  cases front ts
  case closeParen => exact .complete _ fun _ ↦ rfl
  all_goals exact htolerated

theorem curtailed_tooDeep : Curtailed EvalError.IsUnclosed True Tree.evaluate
    (tooDeep ⟨true, maxDepth, endOffset⟩) (tooDeep ⟨false, maxDepth, endOffset⟩) := by
  intro ts
  have hposition : position ⟨true, maxDepth, endOffset⟩ = position ⟨false, maxDepth, endOffset⟩ :=
    position_eq rfl
  rw [tooDeep, tooDeep, hposition]
  exact .failed _

theorem curtailed_term (depth : Nat) : Curtailed EvalError.IsUnclosed True Tree.evaluate
    (term ⟨true, maxDepth, endOffset⟩ depth) (term ⟨false, maxDepth, endOffset⟩ depth) := by
  have hclosing := curtailed_closing maxDepth endOffset
  have htooDeep := curtailed_tooDeep maxDepth endOffset
  induction depth with
  | zero =>
    exact curtailed_termOver (by rfl) hclosing htooDeep htooDeep locates_tooDeep
  | succ depth ih =>
    have hlocates := locates_term (g := ⟨false, maxDepth, endOffset⟩) depth
    exact curtailed_termOver (by rfl) hclosing ih (curtailed_expressionOver ih hlocates)
      (locates_expressionOver hlocates)

/-- **Strictly an expression is read as leniently, or a closing bracket is missing.** -/
theorem curtailed_expression (depth : Nat) : Curtailed EvalError.IsUnclosed True Tree.evaluate
    (expression ⟨true, maxDepth, endOffset⟩ depth)
    (expression ⟨false, maxDepth, endOffset⟩ depth) := by
  cases depth with
  | zero => exact curtailed_tooDeep maxDepth endOffset
  | succ depth =>
    exact curtailed_expressionOver (curtailed_term maxDepth endOffset depth) (locates_term depth)

end Grammar

/-- What a strict reading makes of a lenient one. -/
inductive StrictReading : Except Failure (Part Tree) → Except Failure (Part Tree) → Prop
  | failed (f : Failure) : StrictReading (.error f) (.error f)
  | complete (p : Part Tree) (hrest : p.rest = []) (hmissing : p.missing = 0) :
    StrictReading (.ok p) (.ok p)
  | trailing (p : Part Tree) (t : Token) (ts : List Token) (hrest : p.rest = t :: ts)
    (hmissing : p.missing = 0) :
    StrictReading (.error ⟨.trailingTokens t.kind t.offset, [.after p.value], t :: ts⟩) (.ok p)
  | unclosed (f : Failure) (outcome : Except Failure (Part Tree)) (hf : f.error.IsUnclosed)
    (hmissing : ∀ p, outcome = .ok p → 0 < p.missing) (hunread : unread outcome <:+ f.unread)
    (hbegins : ∀ ρ, Run.Begins (enterAll ρ false f.draft) (outcomeRun ρ outcome)) :
    StrictReading (.error f) outcome

/-- Leniently nothing is asked of what is left over. -/
theorem Tree.read_lenient (tokens : List Token) (maxDepth : Nat) :
    Tree.read tokens false maxDepth
      = Grammar.expression ⟨false, maxDepth, endOffset tokens⟩ maxDepth (beforeEnd tokens) := by
  unfold Tree.read
  simp only [bind_apply]
  cases Grammar.expression ⟨false, maxDepth, endOffset tokens⟩ maxDepth (beforeEnd tokens) with
  | error f => rfl
  | ok p =>
    obtain ⟨t, _ | ⟨u, us⟩, missing⟩ := p <;> rfl

theorem strictReading_read (tokens : List Token) (maxDepth : Nat) :
    StrictReading (Tree.read tokens true maxDepth) (Tree.read tokens false maxDepth) := by
  have hcurtails := Grammar.curtailed_expression maxDepth (endOffset tokens) maxDepth
    (beforeEnd tokens)
  rw [Tree.read_lenient]
  unfold Tree.read
  simp only [bind_apply]
  generalize Grammar.expression ⟨true, maxDepth, endOffset tokens⟩ maxDepth (beforeEnd tokens) = o
    at hcurtails ⊢
  generalize Grammar.expression ⟨false, maxDepth, endOffset tokens⟩ maxDepth (beforeEnd tokens) = o'
    at hcurtails ⊢
  cases hcurtails with
  | failed f => exact .failed f
  | early f _ hf hmissing hunread hbegins =>
    exact .unclosed f _ hf (hmissing trivial) hunread fun ρ ↦
      (hbegins ρ false).trans (begins_outcomeRun _)
  | complete p hmissing =>
    obtain ⟨t, rest, missing⟩ := p
    obtain rfl : missing = 0 := hmissing trivial
    rw [andThen_ok_zero]
    cases rest with
    | nil => exact .complete _ rfl rfl
    | cons u us => exact .trailing ⟨t, u :: us, 0⟩ u us rfl rfl

/-! ## Evaluating -/

/-- How a strict evaluation compares with a lenient one. Whether no bracket was missing is a matter
of reading alone and is given by `clean`. -/
inductive Report.Strict (clean : Prop) (strict lenient : Report) : Prop
  | same (hresult : strict.result = lenient.result) (hcalls : strict.calls = lenient.calls)
    (hignored : lenient.ignored? = none)
    (hform : ∀ e, lenient.result = .error e →
      ¬e.IsUnclosed ∧ ∀ k offset, e ≠ .trailingTokens k offset)
  | trailing (v : Value) (t : Token) (hlenient : lenient.result = .ok v)
    (hstrict : strict.result = .error (.trailingTokens t.kind t.offset))
    (hcalls : strict.calls = lenient.calls) (hignored : lenient.ignored? = some t) (hclean : clean)
  | unclosed (e : EvalError) (hstrict : strict.result = .error e) (he : e.IsUnclosed)
    (hcalls : strict.calls <+: lenient.calls) (hclean : ¬clean)

theorem Report.ignored?_of_error {r : Report} {e : EvalError} (h : r.result = .error e) :
    r.ignored? = none := by
  rw [Report.ignored?, h]

theorem Report.ignored?_of_ok {r : Report} {v : Value} (h : r.result = .ok v) :
    r.ignored? = r.unread.head? := by
  rw [Report.ignored?, h]

/-- Evaluations that come to the same, of which the lenient one leaves nothing over. -/
theorem Report.Strict.of_run {clean : Prop} {strict lenient : Report}
    (hruns : strict.run = lenient.run)
    (hunread : ∀ v, lenient.result = .ok v → lenient.unread = [])
    (hform : ∀ e, lenient.result = .error e →
      ¬e.IsUnclosed ∧ ∀ k offset, e ≠ .trailingTokens k offset) :
    Report.Strict clean strict lenient := by
  refine .same (congrArg Run.result hruns) (congrArg Run.calls hruns) ?_ hform
  cases hresult : lenient.result with
  | error e => exact Report.ignored?_of_error hresult
  | ok v =>
    rw [Report.ignored?_of_ok hresult, hunread v hresult]
    rfl

/-- Reports of a strict and a lenient reading compare as the readings do. -/
theorem StrictReading.strict {o o' : Except Failure (Part Tree)} (h : StrictReading o o')
    {ρ : Scope} {strict lenient : Report} (hs : strict.Agrees ρ o) (hl : lenient.Agrees ρ o')
    (hform : ∀ e, lenient.result = .error e →
      ¬e.IsUnclosed ∧ ∀ k offset, e ≠ .trailingTokens k offset) :
    Report.Strict (∃ p, o' = .ok p ∧ p.missing = 0) strict lenient := by
  have hrun := hs.run
  have hrun' := hl.run
  cases h with
  | failed f =>
    refine .of_run (hrun.trans hrun'.symm) (fun v hv ↦ ?_) hform
    obtain ⟨p, hp, -⟩ := hl.unread_of_ok v hv
    exact absurd hp (by simp)
  | complete p hrest hmissing =>
    refine .of_run (hrun.trans hrun'.symm) (fun v hv ↦ ?_) hform
    obtain ⟨q, hq, hunread⟩ := hl.unread_of_ok v hv
    obtain rfl := Except.ok.inj hq
    exact hunread.trans hrest
  | trailing p t ts hrest hmissing =>
    rw [outcomeRun, Failure.run, enterAll_singleton, Frame.enter] at hrun
    rw [outcomeRun] at hrun'
    rcases hvalue : p.value.evaluate ρ false with ⟨e | v, calls⟩
    · -- a name stops both before anything can be left over
      rw [hvalue] at hrun hrun'
      have hresult : lenient.result = .error e := congrArg Run.result hrun'
      exact .of_run (hrun.trans hrun'.symm)
        (fun v hv ↦ absurd (hresult.symm.trans hv) (by simp)) hform
    · rw [hvalue] at hrun hrun'
      have hruns : strict.run = ⟨.error (.trailingTokens t.kind t.offset), calls⟩ := by
        rw [hrun]
        simp [Run.fail, Run.pure_eq]
      have hresult : lenient.result = .ok v := congrArg Run.result hrun'
      have hcalls : lenient.calls = calls := congrArg Run.calls hrun'
      refine .trailing v t hresult (congrArg Run.result hruns)
        ((congrArg Run.calls hruns).trans hcalls.symm) ?_ ⟨p, rfl, hmissing⟩
      obtain ⟨q, hq, hunread⟩ := hl.unread_of_ok v hresult
      obtain rfl := Except.ok.inj hq
      rw [Report.ignored?_of_ok hresult, hunread, hrest]
      rfl
  | unclosed f _ hf hmissing _ hbegins =>
    rw [outcomeRun, Failure.run] at hrun
    have hdraft := hbegins ρ
    rw [← hrun'] at hdraft
    rcases henter : enterAll ρ false f.draft with ⟨e | skipping, calls⟩
    · -- a name in what both have read stops both, before the missing bracket could show
      rw [henter] at hrun hdraft
      have hresult : lenient.result = .error e := congrArg Run.result hdraft.eq_of_error
      exact .of_run (hrun.trans hdraft.eq_of_error.symm)
        (fun v hv ↦ absurd (hresult.symm.trans hv) (by simp)) hform
    · rw [henter] at hrun hdraft
      have hruns : strict.run = ⟨.error f.error, calls⟩ := by
        rw [hrun]
        simp [Run.fail]
      refine .unclosed f.error (congrArg Run.result hruns) hf ?_ ?_
      · have hcalls : strict.calls = calls := congrArg Run.calls hruns
        rw [hcalls]
        exact hdraft.prefix_calls
      · rintro ⟨p, hp, hzero⟩
        exact absurd (hmissing p hp) (by omega)

section Whole

variable (tokens : List Token) (bindings : Table Value) (functions : Table Callable)
  (options : Options)

/-- A lenient evaluation is never rejected for what it does without. -/
theorem lenient_form {e : EvalError}
    (h : (evaluateTokens tokens bindings functions { options with strict := false }).result
      = .error e) : ¬e.IsUnclosed ∧ ∀ k offset, e ≠ .trailingTokens k offset := by
  have hagrees := agrees_evaluateTokens tokens bindings functions { options with strict := false }
  have hresult := (congrArg Run.result hagrees.run).symm.trans h
  by_cases hstructural : e.isStructural = true
  · obtain ⟨f, hread, rfl⟩ := outcomeRun_eq_structural hresult hstructural
    have hblames := (Tree.blames_read hread).2
    refine ⟨?_, fun k offset hk ↦ ?_⟩
    · rintro ⟨offset, hoffset⟩
      rw [hoffset] at hblames
      cases hblames with
      | unclosed ts hstrict hfront => exact absurd hstrict (by simp)
    · rw [hk] at hblames
      generalize f.unread = us at hblames
      cases hblames with
      | trailing t ts hstrict => exact absurd hstrict (by simp)
  · refine ⟨?_, fun k offset hk ↦ hstructural (hk ▸ rfl)⟩
    rintro ⟨offset, rfl⟩
    exact hstructural rfl

theorem strict_evaluateTokens :
    Report.Strict (∃ p, Tree.read tokens false options.maxDepth = .ok p ∧ p.missing = 0)
      (evaluateTokens tokens bindings functions { options with strict := true })
      (evaluateTokens tokens bindings functions { options with strict := false }) :=
  (strictReading_read tokens options.maxDepth).strict
    (agrees_evaluateTokens tokens bindings functions { options with strict := true })
    (agrees_evaluateTokens tokens bindings functions { options with strict := false })
    fun _ ↦ lenient_form tokens bindings functions options

end Whole

/-- **A strict evaluation is a lenient one with two more rejections.** -/
theorem evaluateTokens_strict (tokens : List Token) (bindings : Table Value)
    (functions : Table Callable) (options : Options) :
    let strict := evaluateTokens tokens bindings functions { options with strict := true }
    let lenient := evaluateTokens tokens bindings functions { options with strict := false }
    (∀ v, strict.result = .ok v →
      lenient.result = .ok v ∧ lenient.calls = strict.calls ∧ lenient.ignored? = none) ∧
    (∀ v, lenient.result = .ok v → strict.result = .ok v ∨
      (∃ offset, strict.result = .error (.unclosedParen offset)) ∨
      ∃ k offset, strict.result = .error (.trailingTokens k offset)) ∧
    (∀ e, strict.result = .error e → (∀ offset, e ≠ .unclosedParen offset) →
      (∀ k offset, e ≠ .trailingTokens k offset) → lenient.result = .error e) ∧
    (∀ e, lenient.result = .error e →
      strict.result = .error e ∨ ∃ offset, strict.result = .error (.unclosedParen offset)) ∧
    (∀ k offset, strict.result = .error (.trailingTokens k offset) ↔
      (∃ v, lenient.result = .ok v) ∧ lenient.ignored? = some ⟨k, offset⟩ ∧
        ∃ p, Tree.read tokens false options.maxDepth = .ok p ∧ p.missing = 0) ∧
    strict.calls <+: lenient.calls := by
  intro strict lenient
  have hstrict : Report.Strict _ strict lenient :=
    strict_evaluateTokens tokens bindings functions options
  cases hstrict with
  | same hresult hcalls hignored hform =>
    rw [hresult]
    refine ⟨fun v hv ↦ ⟨hv, hcalls.symm, hignored⟩, fun v hv ↦ .inl hv, fun e he _ _ ↦ he,
      fun e he ↦ .inl he, fun k offset ↦ ?_, hcalls ▸ List.prefix_refl _⟩
    rw [hignored]
    constructor
    · exact fun he ↦ absurd rfl ((hform _ he).2 k offset)
    · rintro ⟨-, hsome, -⟩
      exact absurd hsome (by simp)
  | trailing v t hlenient hresult hcalls hignored hclean =>
    rw [hlenient, hresult, hignored, hcalls]
    refine ⟨fun v' hv ↦ absurd hv (by simp), fun v' _ ↦ .inr (.inr ⟨_, _, rfl⟩),
      fun e he _ hne ↦ ?_, fun e he ↦ absurd he (by simp), fun k offset ↦ ?_, List.prefix_refl _⟩
    · exact absurd (Except.error.inj he).symm (hne _ _)
    · obtain ⟨kind, offset'⟩ := t
      constructor
      · intro he
        obtain ⟨rfl, rfl⟩ : kind = k ∧ offset' = offset := by simpa using he
        exact ⟨⟨v, rfl⟩, rfl, hclean⟩
      · rintro ⟨-, hsome, -⟩
        obtain ⟨rfl, rfl⟩ : kind = k ∧ offset' = offset := by simpa using hsome
        rfl
  | unclosed e hresult he hcalls hclean =>
    obtain ⟨offset, rfl⟩ := he
    rw [hresult]
    refine ⟨fun v hv ↦ absurd hv (by simp), fun v _ ↦ .inr (.inl ⟨offset, rfl⟩),
      fun e he hne _ ↦ ?_, fun e _ ↦ .inr ⟨offset, rfl⟩, fun k offset' ↦ ?_, hcalls⟩
    · exact absurd (Except.error.inj he).symm (hne offset)
    · constructor
      · exact fun he ↦ absurd he (by simp)
      · rintro ⟨-, -, hp⟩
        exact absurd hp hclean

end Formula
