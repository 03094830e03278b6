import Formula.Proofs.EndMarker
import Formula.Proofs.Returning

/-!
# Every evaluation comes to an end

The loop over the arguments of a call shows no measure. It goes on as long as neither a closing
bracket nor the end is in front, whatever else stands there, and reads a comma only if there is one.
What moves it on is that every argument is an expression, that an expression which has a value has
read a token down in the tightest level, and that nothing is ever read past an end marker; and a
loop inside an argument is moved on by the tokens of the argument.

Here this is put together. The machine of `Formula.Proofs.Machine` stops, with what the evaluation
comes to, and on the way its counts stay in range (`Sound`). Every level that it enters comes back
(`ComesBack`). And for the levels as the functions that they are, in any state and under any budget,
there is what they consume.
-/

namespace Formula

open Reader

namespace Machine

variable {σ : Setting} {tokens : List Token}

/-! ## Levels that come back -/

/-- The level that the machine enters where a control is next. -/
inductive Reads (σ : Setting) : Control → (Nat → Step Value) → Prop
  | expression : Reads σ (.nest (.row .disjunction)) (Step.expression σ)
  | condition : Reads σ (.enter (.row .conjunction)) (Step.condition σ)
  | term : Reads σ (.enter .term) (Step.term σ)
  | comparison : Reads σ (.enter (.row .comparison)) (Step.comparison σ)
  | sum : Reads σ (.enter (.row .sum)) (Step.sum σ)
  | product : Reads σ (.enter (.row .product)) (Step.product σ)
  | operand : Reads σ (.enter .operand) (Step.operand σ)

/-- From `m` the machine comes back with what a level answers. Behind a value the cursor has moved
on, and behind a value and an error alike the frames, the depth and the passing over are those with
which the level was entered. -/
structure ComesBack (σ : Setting) (tokens : List Token) (m : State)
    (answer : EStateM.Result EvalError Progress Value) : Prop where
  value : ∀ v s, answer = .ok v s → ∃ cursor rounds, m.cursor < cursor ∧
    s = ⟨tokens.drop cursor, m.depth, m.skipping, s.calls⟩ ∧
    Reaches σ tokens m { m with control := .resume v, cursor, calls := s.calls, rounds }
  error : ∀ e s, answer = .error e s → ∃ cursor rounds, s.rest = tokens.drop cursor ∧
    Reaches σ tokens m { m with control := .raise e, cursor, calls := s.calls, rounds }

theorem Reads.drives {c : Control} {x : Nat → Step Value} (h : Reads σ c x) (tokens : List Token)
    (hword : σ.options.maxDepth < wordSize) (n : Nat) : Drives σ tokens c 8 n (x n) := by
  have hn := driven (σ := σ) tokens hword n
  cases h with
  | expression => exact hn.expression
  | condition => exact hn.condition.mono (by omega)
  | term => exact hn.term.mono (by omega)
  | comparison => exact hn.comparison.mono (by omega)
  | sum => exact hn.sum.mono (by omega)
  | product => exact hn.product.mono (by omega)
  | operand => exact hn.operand.mono (by omega)

theorem Reads.mem_levels {c : Control} {x : Nat → Step Value} (h : Reads σ c x) (n : Nat) :
    x n ∈ Step.levels σ n := by
  cases h <;> simp [Step.levels]

/-- **Every level that is entered comes back.** -/
theorem Reads.comesBack {c : Control} {x : Nat → Step Value} (h : Reads σ c x)
    (hword : σ.options.maxDepth < wordSize) {m : State} (hcontrol : m.control = c) {n : Nat}
    (hbudget : 8 * (m.rest tokens).length + 8 ≤ n) :
    ComesBack σ tokens m (x n (m.progress tokens)) := by
  have hreturns := h.drives tokens hword n m hcontrol hbudget
  constructor
  · intro v s hok
    rw [hok] at hreturns
    obtain ⟨cursor, rounds, hs, hreaches⟩ := hreturns
    have hlt := length_lt_of_consumes
      (Step.consumes_of_mem_levels (h.mem_levels n) (m.progress tokens)) (hs ▸ hok)
    refine ⟨cursor, rounds, ?_, hs, hreaches⟩
    simp only [State.rest, List.length_drop] at hlt
    omega
  · intro e s herror
    rw [herror] at hreturns
    exact hreturns

/-! ## Whole evaluations -/

/-- What an evaluation that has ended comes to. Only strict evaluation asks for the end behind the
expression. -/
def State.result? (σ : Setting) (tokens : List Token) (m : State) :
    Option (Except EvalError Value) :=
  match m.control, m.stack with
  | .resume v, [] =>
    if σ.options.strict ∧ front (m.rest tokens) ≠ .endOfInput then
      some (.error (.trailingTokens (front (m.rest tokens)) (m.position σ tokens)))
    else some (.ok v)
  | .raise e, [] => some (.error e)
  | _, _ => none

/-- Where the machine does not go on it has a result. -/
theorem Sound.isSome_result? {m : State} (h : Sound σ tokens m)
    (hstep : step σ tokens m = none) : (m.result? σ tokens).isSome := by
  obtain ⟨hstack, ⟨v, hv⟩ | ⟨e, he⟩⟩ := h.stopped hstep
  · rw [State.result?, hv, hstack]
    dsimp only
    split <;> rfl
  · rw [State.result?, he, hstack]
    rfl

end Machine

/-- The setting of an evaluation that leaves end markers where they are. -/
def Setting.inPlace (tokens : List Token) (bindings : Table Value) (functions : Table Callable)
    (options : Options) : Setting :=
  ⟨bindings, functions, options, (tokens.getLast?.map Token.offset).getD 0⟩

/-- What is behind an expression is an error where the evaluation is strict and no end is there. -/
theorem Step.finishing_apply (σ : Setting) (s : Progress) : Step.finishing σ s =
    if σ.options.strict ∧ front s.rest ≠ .endOfInput then
      .error (.trailingTokens (front s.rest) (σ.grammar.position s.rest)) s
    else .ok () s := by
  rw [Step.finishing]
  cases front s.rest <;> by_cases hstrict : σ.options.strict = true <;> simp [hstrict]

open Machine

section Whole

variable (tokens : List Token) (bindings : Table Value) (functions : Table Callable)
  (options : Options)

/-- An evaluation in place is an expression and the look at what is behind it. -/
theorem evaluateInPlace_of_ok {v : Value} {s : Progress}
    (h : (do
      let v ← Step.expression (.inPlace tokens bindings functions options) (budgetFor tokens)
      Step.finishing (.inPlace tokens bindings functions options)
      return v : Step Value) (start.progress tokens) = .ok v s) :
    evaluateInPlace tokens bindings functions options
      = ⟨.ok v, s.calls, beforeEnd s.rest⟩ := by
  simp only [Setting.inPlace] at h
  simp only [evaluateInPlace]
  rw [show ({ rest := tokens } : Progress) = start.progress tokens from rfl, h]

theorem evaluateInPlace_of_error {e : EvalError} {s : Progress}
    (h : (do
      let v ← Step.expression (.inPlace tokens bindings functions options) (budgetFor tokens)
      Step.finishing (.inPlace tokens bindings functions options)
      return v : Step Value) (start.progress tokens) = .error e s) :
    evaluateInPlace tokens bindings functions options
      = ⟨.error e, s.calls, beforeEnd s.rest⟩ := by
  simp only [Setting.inPlace] at h
  simp only [evaluateInPlace]
  rw [show ({ rest := tokens } : Progress) = start.progress tokens from rfl, h]

/-- The machine ends where an evaluation in place does. -/
theorem Machine.exists_last_inPlace (hword : options.maxDepth < wordSize) :
    let σ := Setting.inPlace tokens bindings functions options
    let report := evaluateInPlace tokens bindings functions options
    ∃ k last, Steps σ tokens k start last ∧ step σ tokens last = none ∧
      last.result? σ tokens = some report.result ∧ last.calls = report.calls ∧
      report.unread = beforeEnd (tokens.drop last.cursor) := by
  intro σ report
  have hexpression := (driven (σ := σ) tokens hword (budgetFor tokens)).expression start rfl
    (Nat.le_refl _)
  cases hres : Step.expression σ (budgetFor tokens) (start.progress tokens) with
  | error e s =>
    rw [hres] at hexpression
    obtain ⟨cursor, rounds, hrest, k, hsteps⟩ := hexpression
    have hreport : report = ⟨.error e, s.calls, beforeEnd s.rest⟩ :=
      evaluateInPlace_of_error _ _ _ _ (Step.bind_of_error hres)
    refine ⟨k, _, hsteps, rfl, ?_⟩
    rw [hreport, hrest]
    exact ⟨rfl, rfl, rfl⟩
  | ok v s =>
    rw [hres] at hexpression
    obtain ⟨cursor, rounds, hs, k, hsteps⟩ := hexpression
    have hrest : s.rest = tokens.drop cursor := by rw [hs]
    let last : State := { start with control := .resume v, cursor, calls := s.calls, rounds }
    have hlast : last.rest tokens = s.rest := hrest.symm
    have hresult : last.result? σ tokens =
        if σ.options.strict ∧ front (last.rest tokens) ≠ .endOfInput then
          some (.error (.trailingTokens (front (last.rest tokens)) (last.position σ tokens)))
        else some (.ok v) := rfl
    have hfinishing := Step.finishing_apply σ s
    rw [State.position, hlast] at hresult
    refine ⟨k, last, hsteps, rfl, ?_⟩
    by_cases hleftover : σ.options.strict ∧ front s.rest ≠ .endOfInput
    · rw [if_pos hleftover] at hresult hfinishing
      have hreport : report = ⟨_, s.calls, beforeEnd s.rest⟩ := evaluateInPlace_of_error _ _ _ _
        ((Step.bind_of_ok hres).trans (Step.bind_of_error hfinishing))
      rw [hreport, hresult, ← hrest]
      exact ⟨rfl, rfl, rfl⟩
    · rw [if_neg hleftover] at hresult hfinishing
      have hreport : report = ⟨_, s.calls, beforeEnd s.rest⟩ := evaluateInPlace_of_ok _ _ _ _
        ((Step.bind_of_ok hres).trans (Step.bind_of_ok hfinishing))
      rw [hreport, hresult, ← hrest]
      exact ⟨rfl, rfl, rfl⟩

/-- **The machine ends where the evaluation does**, with its result and its calls. -/
theorem Machine.exists_last (hword : options.maxDepth < wordSize) :
    let σ := Setting.inPlace tokens bindings functions options
    let report := evaluateTokens tokens bindings functions options
    ∃ k last, Steps σ tokens k start last ∧ step σ tokens last = none ∧
      last.result? σ tokens = some report.result ∧ last.calls = report.calls ∧
      ∀ v, report.result = .ok v →
        report.ignored? = (beforeEnd (tokens.drop last.cursor)).head? := by
  intro σ report
  obtain ⟨hrun, hignored⟩ := evaluateInPlace_eq tokens bindings functions options
  obtain ⟨k, last, hsteps, hlast, hresult, hcalls, hunread⟩ :=
    Machine.exists_last_inPlace tokens bindings functions options hword
  have hresults : report.result = (evaluateInPlace tokens bindings functions options).result :=
    congrArg Run.result hrun
  refine ⟨k, last, hsteps, hlast, ?_, ?_, fun v hv ↦ ?_⟩
  · rw [hresult, hresults]
  · exact hcalls.trans (congrArg Run.calls hrun).symm
  · rw [← hunread, ← Report.ignored?_of_ok (hresults.symm.trans hv)]
    exact hignored

theorem Machine.potential_start : potential tokens start = 17 * markerIndex tokens + 14 := rfl

/-- **An evaluation keeps its counts in range and comes to an end**, for any tokens, names and
options with a limit that is a machine word. Taken step by step it ends with the result and the
calls of the evaluation. Whatever it reaches is sound, reached in a number of steps that is linear
in the tokens in front of the first marker, and not the last but with a result. Every level that is
entered comes back. A level that has a value has read a token, and a list of arguments as many as it
has values. -/
theorem evaluateTokens_progress (hword : options.maxDepth < wordSize) :
    let σ := Setting.inPlace tokens bindings functions options
    let report := evaluateTokens tokens bindings functions options
    (∃ k last, Steps σ tokens k start last ∧ step σ tokens last = none ∧
      last.result? σ tokens = some report.result ∧ last.calls = report.calls) ∧
    (∀ k m, Steps σ tokens k start m →
      Sound σ tokens m ∧ k ≤ 17 * markerIndex tokens + 14 ∧
      (step σ tokens m = none → (m.result? σ tokens).isSome)) ∧
    (∀ c x, Reads σ c x → ∀ (m : State) (n : Nat), m.control = c →
      8 * (m.rest tokens).length + 8 ≤ n → ComesBack σ tokens m (x n (m.progress tokens))) ∧
    ∀ (n : Nat) (s : Progress), (∀ x ∈ Step.levels σ n, Consumes (fun _ ↦ 1) s (x s)) ∧
      Consumes List.length s (Step.argumentList σ n s) := by
  intro σ report
  refine ⟨?_, fun k m hsteps ↦ ?_, fun c x hreads m n hcontrol hbudget ↦ ?_, fun n s ↦ ?_⟩
  · obtain ⟨k, last, hsteps, hlast, hresult, hcalls, -⟩ :=
      Machine.exists_last tokens bindings functions options hword
    exact ⟨k, last, hsteps, hlast, hresult, hcalls⟩
  · obtain ⟨hsound, hle⟩ := hsteps.improves (sound_start σ tokens) hword
    rw [potential_start] at hle
    exact ⟨hsound, Nat.le_trans (Nat.le_add_right k _) hle, hsound.isSome_result?⟩
  · exact hreads.comesBack hword hcontrol hbudget
  · exact ⟨fun x hx ↦ Step.consumes_of_mem_levels hx s, (consuming σ n).argumentList s⟩

/-- A group that a marker cuts short, under the largest limit there is. -/
theorem evaluateTokens_progress_marker :
    let tokens : List Token := [⟨.identifier "not", 0⟩, ⟨.openParen, 4⟩, ⟨.endOfInput, 5⟩,
      ⟨.closeParen, 6⟩, ⟨.endOfInput, 7⟩]
    let options : Options := { maxDepth := 0xFFFFFFFFFFFFFFFF }
    let σ := Setting.inPlace tokens ∅ ∅ options
    options.maxDepth < wordSize ∧
    (∃ k last, Steps σ tokens k start last ∧
      last.result? σ tokens = some (.error (.unexpectedToken .endOfInput 5))) ∧
    ∀ k m, Steps σ tokens k start m → m.cursor ≤ 2 ∧ k ≤ 48 := by
  intro tokens options σ
  have hword : options.maxDepth < wordSize := by decide
  obtain ⟨⟨k, last, hsteps, -, hresult, -⟩, hsound, -⟩ :=
    evaluateTokens_progress tokens ∅ ∅ options hword
  refine ⟨hword, ⟨k, last, hsteps, hresult⟩, fun k m hm ↦ ?_⟩
  obtain ⟨hsound, hle, -⟩ := hsound k m hm
  exact ⟨hsound.cursor_le, hle⟩

end Whole

end Formula
