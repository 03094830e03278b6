import Formula.Proofs.TwoPhases

/-!
# What does not depend on data

Reading knows no values, so two evaluations of the same tokens under different variables and
functions can differ in a value or in a name that stands for nothing, and in nothing else. If no
name stops either of them, they fail with the same error or both have a value, and leave the same
tokens. Without short-circuiting they also call the same functions, as many times and with as many
arguments: the names and numbers can be read off the tree (`Tree.callees`).

## All calls

The record of an evaluation has the calls that went to the host and leaves out those of standard
functions. Which names belong to the host is itself a matter of the table of functions, so records
under different tables are not comparable as they are. `allCalls` is the record of the same
evaluation with every function supplied by the host. Nothing else changes thereby, and the record
proper is the part of it that goes to the host (`evaluateTokens_recorded`).
-/

namespace Formula

open Formula.Tree Reader

/-! ## Functions that all leave a record -/

namespace Table

/-- The table of the same functions, all of them supplied by the host. -/
def recorded (functions : Table Callable) : Table Callable :=
  ⟨functions.entries.map fun entry ↦ (entry.1, .host entry.2.apply)⟩

/-- Whether calls by a name are recorded. -/
def goesToHost (functions : Table Callable) (name : String) : Bool :=
  (functions.get? name).any Callable.isHost

theorem get?_recorded (functions : Table Callable) (name : String) :
    functions.recorded.get? name = (functions.get? name).map fun f ↦ .host f.apply := by
  obtain ⟨entries⟩ := functions
  simp only [get?, recorded]
  induction entries with
  | nil => rfl
  | cons entry entries ih =>
    rw [List.map_cons, List.lookup_cons, List.lookup_cons, ih]
    cases name == entry.1 <;> rfl

end Table

/-- The scope in which every function is supplied by the host. -/
def Scope.recorded (ρ : Scope) : Scope := { ρ with functions := ρ.functions.recorded }

namespace Run

variable {α β : Type} {hosts : String → Bool}

/-- The second run is the first with only some of the calls recorded. -/
structure Records (hosts : String → Bool) (full part : Run α) : Prop where
  result_eq : full.result = part.result
  calls_eq : part.calls = full.calls.filter fun c ↦ hosts c.name

theorem records_pure (a : α) : Records hosts (pure a) (pure a) := ⟨rfl, rfl⟩

theorem records_fail (e : EvalError) : Records hosts (fail e : Run α) (fail e) := ⟨rfl, rfl⟩

theorem Records.bind {full part : Run α} {f g : α → Run β} (h : Records hosts full part)
    (hfg : ∀ a, Records hosts (f a) (g a)) : Records hosts (full >>= f) (part >>= g) := by
  obtain ⟨result, calls⟩ := full
  obtain ⟨result', calls'⟩ := part
  obtain rfl : result = result' := h.result_eq
  have hcalls : calls' = calls.filter fun c ↦ hosts c.name := h.calls_eq
  cases result with
  | error e => exact ⟨rfl, hcalls⟩
  | ok a =>
    refine ⟨(hfg a).result_eq, ?_⟩
    simp only [bind_ok, List.filter_append, (hfg a).calls_eq, hcalls]

end Run

namespace Tree

open Run (Records)

variable (ρ : Scope)

theorem records_call (skipping : Bool) (name : String) (vs : List Value) (offset : Nat) :
    Records ρ.functions.goesToHost (ρ.recorded.call skipping name vs offset)
      (ρ.call skipping name vs offset) := by
  cases skipping with
  | true => exact Run.records_pure _
  | false =>
    simp only [Scope.call, Scope.recorded, Table.get?_recorded]
    cases hf : ρ.functions.get? name with
    | none => exact Run.records_fail _
    | some f =>
      have hhost : ρ.functions.goesToHost name = f.isHost := by rw [Table.goesToHost, hf]; rfl
      refine ⟨rfl, ?_⟩
      cases f with
      | standard f => simp [hhost, Callable.isHost]
      | host f => simp [hhost, Callable.isHost]

theorem records_lookUp (skipping : Bool) (name : String) (offset : Nat) :
    Records ρ.functions.goesToHost (ρ.recorded.lookUp skipping name offset)
      (ρ.lookUp skipping name offset) := by
  cases skipping with
  | true => exact Run.records_pure _
  | false =>
    simp only [Scope.lookUp, Scope.recorded]
    cases ρ.bindings.get? name with
    | none => exact Run.records_fail _
    | some v => exact Run.records_pure v

mutual

/-- Under which functions' calls are recorded a tree has the same value. -/
theorem records_evaluate : ∀ (t : Tree) (skipping : Bool), Records ρ.functions.goesToHost
    (t.evaluate ρ.recorded skipping) (t.evaluate ρ skipping)
  | literal v, skipping => Run.records_pure v
  | named name offset, skipping => records_lookUp ρ skipping name offset
  | call name arguments offset, skipping => by
    rw [evaluate, evaluate]
    exact (records_evaluateAll arguments skipping).bind fun vs ↦ records_call ρ skipping name vs _
  | not operand, skipping => by
    rw [evaluate, evaluate]
    exact (records_evaluate operand skipping).bind fun v ↦ Run.records_pure _
  | joined j left right, skipping => by
    rw [evaluate, evaluate]
    refine (records_evaluate left skipping).bind fun v ↦ ?_
    exact (records_evaluate right _).bind fun w ↦ Run.records_pure _

theorem records_evaluateAll : ∀ (ts : List Tree) (skipping : Bool),
    Records ρ.functions.goesToHost (evaluateAll ρ.recorded skipping ts) (evaluateAll ρ skipping ts)
  | [], skipping => Run.records_pure []
  | t :: ts, skipping => by
    rw [evaluateAll, evaluateAll]
    refine (records_evaluate t skipping).bind fun v ↦ ?_
    exact (records_evaluateAll ts skipping).bind fun vs ↦ Run.records_pure _

end

theorem records_enterAll (draft : List Frame) : ∀ skipping : Bool,
    Records ρ.functions.goesToHost (enterAll ρ.recorded skipping draft)
      (enterAll ρ skipping draft) := by
  induction draft with
  | nil => exact fun skipping ↦ Run.records_pure skipping
  | cons f draft ih =>
    intro skipping
    rw [enterAll_cons, enterAll_cons]
    refine Run.Records.bind ?_ ih
    cases f with
    | after t => exact (records_evaluate ρ t skipping).bind fun _ ↦ Run.records_pure _
    | right j left => exact (records_evaluate ρ left skipping).bind fun _ ↦ Run.records_pure _

theorem records_outcomeRun (outcome : Except Failure (Part Tree)) :
    Records ρ.functions.goesToHost (outcomeRun ρ.recorded outcome) (outcomeRun ρ outcome) := by
  cases outcome with
  | ok p => exact records_evaluate ρ p.value false
  | error f => exact (records_enterAll ρ f.draft false).bind fun _ ↦ Run.records_fail _

end Tree

/-- The calls of an evaluation, those of standard functions among them. -/
def allCalls (tokens : List Token) (bindings : Table Value) (functions : Table Callable)
    (options : Options) : List Call :=
  (evaluateTokens tokens bindings functions.recorded options).calls

/-- **Who supplies a function matters to the record alone.** -/
theorem evaluateTokens_recorded (tokens : List Token) (bindings : Table Value)
    (functions : Table Callable) (options : Options) :
    (evaluateTokens tokens bindings functions.recorded options).result
        = (evaluateTokens tokens bindings functions options).result ∧
      (evaluateTokens tokens bindings functions options).calls
        = (allCalls tokens bindings functions options).filter
          fun c ↦ functions.goesToHost c.name := by
  have hfull := (agrees_evaluateTokens tokens bindings functions.recorded options).run
  have hpart := (agrees_evaluateTokens tokens bindings functions options).run
  have hrecords := Tree.records_outcomeRun ⟨bindings, functions, options.shortCircuit⟩
    (Tree.read tokens options.strict options.maxDepth)
  have hfull' : (evaluateTokens tokens bindings functions.recorded options).run
      = outcomeRun (Scope.recorded ⟨bindings, functions, options.shortCircuit⟩)
        (Tree.read tokens options.strict options.maxDepth) := hfull
  rw [← hfull', ← hpart] at hrecords
  exact ⟨hrecords.result_eq, hrecords.calls_eq⟩

/-! ## Which functions a tree calls -/

/-- The name that is called, and the number of arguments. -/
def Call.shape (c : Call) : String × Nat := (c.name, c.arguments.length)

namespace Tree

mutual

/-- The calls of a tree that is evaluated in full, from the first to the last. -/
def callees : Tree → List (String × Nat)
  | literal _ | named _ _ => []
  | call name arguments _ => calleesAll arguments ++ [(name, arguments.length)]
  | not operand => callees operand
  | joined _ left right => callees left ++ callees right

def calleesAll : List Tree → List (String × Nat)
  | [] => []
  | t :: ts => callees t ++ calleesAll ts

end

/-- The calls of a frame. -/
def Frame.callees : Frame → List (String × Nat)
  | after t | right _ t => t.callees

end Tree

namespace Run

variable {α β : Type}

/-- If the run is not stopped, these are its calls. -/
def Makes (shapes : List (String × Nat)) (r : Run α) : Prop :=
  ∀ a, r.result = .ok a → r.calls.map Call.shape = shapes

theorem makes_pure (a : α) : (pure a : Run α).Makes [] := fun _ _ ↦ rfl

theorem makes_fail (e : EvalError) (shapes : List (String × Nat)) :
    (fail e : Run α).Makes shapes := fun _ h ↦ absurd h (by simp [fail])

theorem Makes.bind {shapes shapes' : List (String × Nat)} {r : Run α} {f : α → Run β}
    (hr : r.Makes shapes) (hf : ∀ a, r.result = .ok a → (f a).Makes shapes') :
    (r >>= f).Makes (shapes ++ shapes') := by
  intro b hb
  obtain ⟨a, calls, rfl, hfa⟩ := bind_eq_ok hb
  rw [bind_ok, List.map_append, hf a rfl b hfa]
  exact congrArg (· ++ shapes') (hr a rfl)

/-- What a run answers with is no call. -/
theorem Makes.map {shapes : List (String × Nat)} {r : Run α} (hr : r.Makes shapes) (f : α → β) :
    (r >>= fun a ↦ pure (f a)).Makes shapes := by
  have h := hr.bind fun a _ ↦ makes_pure (f a)
  rwa [List.append_nil] at h

end Run

namespace Tree

variable {ρ : Scope}

/-- There are as many values as there are trees. -/
theorem length_of_evaluateAll (skipping : Bool) (ts : List Tree) : ∀ vs : List Value,
    (evaluateAll ρ skipping ts).result = .ok vs → vs.length = ts.length := by
  induction ts with
  | nil =>
    intro vs h
    obtain rfl := Except.ok.inj h
    rfl
  | cons t ts ih =>
    intro vs h
    rw [evaluateAll] at h
    obtain ⟨v, calls, -, h⟩ := Run.bind_eq_ok h
    obtain ⟨vs', calls', hvs', h⟩ := Run.bind_eq_ok h
    obtain rfl := Except.ok.inj h
    rw [List.length_cons, List.length_cons, ih vs' (congrArg Run.result hvs')]

theorem makes_call (name : String) (vs : List Value) (offset : Nat) :
    (ρ.recorded.call false name vs offset).Makes [(name, vs.length)] := by
  simp only [Scope.call, Scope.recorded, Table.get?_recorded]
  cases ρ.functions.get? name with
  | none => exact Run.makes_fail _ _
  | some f => exact fun _ _ ↦ rfl

theorem makes_lookUp (name : String) (offset : Nat) :
    (ρ.lookUp false name offset).Makes [] := by
  simp only [Scope.lookUp]
  cases ρ.bindings.get? name with
  | none => exact Run.makes_fail _ _
  | some v => exact Run.makes_pure v

/-- In full, the right operand is never passed over. -/
theorem not_passedOver (hρ : ρ.shortCircuit = false) (j : Joint) (v : Value) :
    (false || ρ.recorded.shortCircuit && j.isDecidedBy v) = false := by
  have hrecorded : ρ.recorded.shortCircuit = false := hρ
  rw [hrecorded]
  rfl

mutual

/-- **Which functions a tree calls does not depend on any value.** -/
theorem makes_evaluate (hρ : ρ.shortCircuit = false) : ∀ t : Tree,
    (t.evaluate ρ.recorded false).Makes t.callees
  | literal v => Run.makes_pure v
  | named name offset => makes_lookUp name offset
  | call name arguments offset => by
    rw [evaluate, callees]
    refine (makes_evaluateAll hρ arguments).bind fun vs hvs ↦ ?_
    rw [← length_of_evaluateAll false arguments vs hvs]
    exact makes_call name vs offset
  | not operand => by
    rw [evaluate, callees]
    exact (makes_evaluate hρ operand).map _
  | joined j left right => by
    rw [evaluate, callees]
    refine (makes_evaluate hρ left).bind fun v _ ↦ ?_
    rw [not_passedOver hρ]
    exact (makes_evaluate hρ right).map _

theorem makes_evaluateAll (hρ : ρ.shortCircuit = false) : ∀ ts : List Tree,
    (evaluateAll ρ.recorded false ts).Makes (calleesAll ts)
  | [] => Run.makes_pure []
  | t :: ts => by
    rw [evaluateAll, calleesAll]
    exact (makes_evaluate hρ t).bind fun v _ ↦ (makes_evaluateAll hρ ts).map _

end

/-- In full, a frame leaves nothing to be passed over. -/
theorem eq_false_of_enter (hρ : ρ.shortCircuit = false) (f : Frame) {skipping : Bool}
    (h : (f.enter ρ.recorded false).result = .ok skipping) : skipping = false := by
  cases f with
  | after t =>
    obtain ⟨v, calls, -, hv⟩ := Run.bind_eq_ok h
    exact (Except.ok.inj hv).symm
  | right j left =>
    obtain ⟨v, calls, -, hv⟩ := Run.bind_eq_ok h
    exact (Except.ok.inj hv).symm.trans (not_passedOver hρ j v)

/-- So a draft calls what its frames call. -/
theorem makes_enterAll (hρ : ρ.shortCircuit = false) (draft : List Frame) :
    (enterAll ρ.recorded false draft).Makes (draft.flatMap Frame.callees) := by
  induction draft with
  | nil => exact Run.makes_pure false
  | cons f draft ih =>
    rw [enterAll_cons, List.flatMap_cons]
    refine Run.Makes.bind ?_ fun skipping hskipping ↦ ?_
    · cases f with
      | after t => exact (makes_evaluate hρ t).map _
      | right j left => exact (makes_evaluate hρ left).map _
    · rw [eq_false_of_enter hρ f hskipping]
      exact ih

end Tree

/-- The calls of what was read. -/
def outcomeCallees : Except Failure (Part Tree) → List (String × Nat)
  | .ok p => p.value.callees
  | .error f => f.draft.flatMap Frame.callees

/-- What was read makes its calls unless a name stops it. -/
theorem shape_outcomeRun {ρ : Scope} (hρ : ρ.shortCircuit = false)
    {outcome : Except Failure (Part Tree)}
    (h : ∀ e, (outcomeRun ρ.recorded outcome).result = .error e → e.isStructural) :
    (outcomeRun ρ.recorded outcome).calls.map Call.shape = outcomeCallees outcome := by
  cases outcome with
  | ok p =>
    cases hvalue : (p.value.evaluate ρ.recorded false).result with
    | ok v => exact makes_evaluate hρ p.value v hvalue
    | error e =>
      have hname := stopsAtNames_evaluate ρ.recorded p.value false e hvalue
      exact absurd (h e hvalue) (by simp [hname])
  | error f =>
    rw [outcomeRun] at h ⊢
    rcases run_failure_cases (ρ := ρ.recorded) (β := Value) false f with
      ⟨skipping, calls, hdraft, hfailed⟩ | ⟨e, calls, hname, hfailed⟩
    · have hmakes := makes_enterAll hρ f.draft skipping (congrArg Run.result hdraft)
      rw [hdraft] at hmakes
      rw [hfailed]
      exact hmakes
    · exact absurd (h e (congrArg Run.result hfailed)) (by simp [hname])

/-! ## Two evaluations of the same tokens -/

section Whole

variable {tokens : List Token} {bindings : Table Value} {functions : Table Callable}
  {options : Options}

/-- An evaluation that no name stops has a value where there is a tree, and fails as the reading
does where there is none. -/
theorem evaluateTokens_of_structural
    (h : ∀ e, (evaluateTokens tokens bindings functions options).result = .error e →
      e.isStructural) :
    match Tree.read tokens options.strict options.maxDepth with
    | .ok p => (∃ v, (evaluateTokens tokens bindings functions options).result = .ok v) ∧
        (evaluateTokens tokens bindings functions options).unread = p.rest
    | .error f =>
      (evaluateTokens tokens bindings functions options).result = .error f.error ∧
        (evaluateTokens tokens bindings functions options).unread = f.unread := by
  have hagrees := agrees_evaluateTokens tokens bindings functions options
  cases hresult : (evaluateTokens tokens bindings functions options).result with
  | ok v =>
    obtain ⟨p, hread, hunread⟩ := hagrees.unread_of_ok v hresult
    rw [hread]
    exact ⟨⟨v, rfl⟩, hunread⟩
  | error e =>
    obtain ⟨f, hread, rfl, hunread⟩ := hagrees.eq_error hresult (h e hresult)
    rw [hread]
    exact ⟨rfl, hunread⟩

/-- What it calls in full can be read off what was read. -/
theorem shape_allCalls (hoptions : options.shortCircuit = false)
    (h : ∀ e, (evaluateTokens tokens bindings functions options).result = .error e →
      e.isStructural) :
    (allCalls tokens bindings functions options).map Call.shape
      = outcomeCallees (Tree.read tokens options.strict options.maxDepth) := by
  let ρ : Scope := ⟨bindings, functions, options.shortCircuit⟩
  have hrun : (evaluateTokens tokens bindings functions.recorded options).run
      = outcomeRun ρ.recorded (Tree.read tokens options.strict options.maxDepth) :=
    (agrees_evaluateTokens tokens bindings functions.recorded options).run
  have hcalls : allCalls tokens bindings functions options
      = (outcomeRun ρ.recorded (Tree.read tokens options.strict options.maxDepth)).calls :=
    congrArg Run.calls hrun
  have hresult := (evaluateTokens_recorded tokens bindings functions options).1
  rw [hcalls]
  refine shape_outcomeRun hoptions fun e he ↦ h e ?_
  exact hresult.symm.trans ((congrArg Run.result hrun).trans he)

end Whole

/-- **Whether and how an expression fails in its form does not depend on data.** Take two
evaluations of the same tokens that no undefined name stops. Both have a value or both fail, with
the same error; they leave the same tokens; and in full they call the same functions in the same
order, with as many arguments. -/
theorem evaluateTokens_independent (tokens : List Token) (options : Options)
    (bindings bindings' : Table Value) (functions functions' : Table Callable)
    (h : ∀ e, (evaluateTokens tokens bindings functions options).result = .error e →
      e.isStructural)
    (h' : ∀ e, (evaluateTokens tokens bindings' functions' options).result = .error e →
      e.isStructural) :
    let report := evaluateTokens tokens bindings functions options
    let report' := evaluateTokens tokens bindings' functions' options
    ((∃ v v', report.result = .ok v ∧ report'.result = .ok v') ∨
      ∃ e, report.result = .error e ∧ report'.result = .error e) ∧
    report'.unread = report.unread ∧ report'.ignored? = report.ignored? ∧
    (options.shortCircuit = false →
      (allCalls tokens bindings' functions' options).map Call.shape
        = (allCalls tokens bindings functions options).map Call.shape) := by
  intro report report'
  have hform := evaluateTokens_of_structural h
  have hform' := evaluateTokens_of_structural h'
  have hcalls : options.shortCircuit = false →
      (allCalls tokens bindings' functions' options).map Call.shape
        = (allCalls tokens bindings functions options).map Call.shape := fun hoptions ↦
    (shape_allCalls hoptions h').trans (shape_allCalls hoptions h).symm
  cases hread : Tree.read tokens options.strict options.maxDepth with
  | ok p =>
    rw [hread] at hform hform'
    obtain ⟨⟨v, hv⟩, hunread⟩ := hform
    obtain ⟨⟨v', hv'⟩, hunread'⟩ := hform'
    have hsame : report'.unread = report.unread := hunread'.trans hunread.symm
    refine ⟨.inl ⟨v, v', hv, hv'⟩, hsame, ?_, hcalls⟩
    rw [Report.ignored?, Report.ignored?, hsame, hv, hv']
  | error f =>
    rw [hread] at hform hform'
    refine ⟨.inr ⟨f.error, hform.1, hform'.1⟩, hform'.2.trans hform.2.symm, ?_, hcalls⟩
    rw [Report.ignored?, Report.ignored?, hform.1, hform'.1]

/-- `f(a) or )` in two settings, one with a function of the host and one with a standard one. Both
refuse the bracket, behind one call with one argument. -/
theorem evaluateTokens_independent_refused :
    let tokens : List Token := [⟨.identifier "f", 0⟩, ⟨.openParen, 1⟩, ⟨.identifier "a", 2⟩,
      ⟨.closeParen, 3⟩, ⟨.identifier "or", 5⟩, ⟨.closeParen, 8⟩, ⟨.endOfInput, 9⟩]
    let host : Table Callable := Table.empty.insert "f" (.host fun _ ↦ .boolean true)
    let standard : Table Callable := Table.empty.insert "f" (.standard .len)
    let bindings : Table Value := Table.empty.insert "a" (.boolean false)
    let bindings' : Table Value := Table.empty.insert "a" (.text "")
    (∀ e, (evaluateTokens tokens bindings host {}).result = .error e → e.isStructural) ∧
    (∀ e, (evaluateTokens tokens bindings' standard {}).result = .error e → e.isStructural) ∧
    (allCalls tokens bindings' standard {}).map Call.shape = [("f", 1)] := by
  intro tokens host standard bindings bindings'
  have hresult : (evaluateTokens tokens bindings host {}).result
      = .error (.unexpectedToken .closeParen 8) := by rfl
  have hresult' : (evaluateTokens tokens bindings' standard {}).result
      = .error (.unexpectedToken .closeParen 8) := by rfl
  have h : ∀ e, (evaluateTokens tokens bindings host {}).result = .error e → e.isStructural := by
    intro e he
    obtain rfl := Except.error.inj (hresult.symm.trans he)
    rfl
  have h' : ∀ e, (evaluateTokens tokens bindings' standard {}).result = .error e →
      e.isStructural := by
    intro e he
    obtain rfl := Except.error.inj (hresult'.symm.trans he)
    rfl
  refine ⟨h, h', ?_⟩
  rw [(evaluateTokens_independent tokens {} bindings bindings' host standard h h').2.2.2 rfl]
  rfl

end Formula
