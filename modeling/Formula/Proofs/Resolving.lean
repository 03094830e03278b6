import Formula.Proofs.TwoPhases

/-!
# The names that an evaluation resolves

An evaluation looks up the names of a tree one after the other, those of arguments before the name
of the call, and none in operands that are passed over (`Tree.lookUps`). It ends at the first that
stands for nothing; all others it resolves. An evaluation in another scope that has the same under
these names does the same, up to there; if the name that stopped the first stands for something in
the other scope, the second goes on from there (`Run.Resumes`).

What a name stands for can decide which names are looked up next, so two scopes can be compared only
as far as both evaluations look up the same, and the relation says so for whatever comes behind
(`Run.Resolves.bind`).

## Why the names are the right ones

That a scope has to agree under some names is no strong statement if there are many of them. But
each of the names is needed: once it stands for nothing, the evaluation stops there
(`mem_resolved_iff`).
-/

namespace Formula

open Formula.Tree Reader

/-! ## References -/

/-- What an expression can look up: a variable, or the function of a call. -/
inductive Reference where
  | binding (name : String)
  | function (name : String)
  deriving DecidableEq, Repr

namespace Scope

/-- Whether a reference stands for something. -/
def knows (ρ : Scope) : Reference → Bool
  | .binding name => ρ.bindings.contains name
  | .function name => ρ.functions.contains name

/-- Two scopes have the same under a reference. -/
def SameAt (ρ ρ' : Scope) : Reference → Prop
  | .binding name => ρ'.bindings.get? name = ρ.bindings.get? name
  | .function name => ρ'.functions.get? name = ρ.functions.get? name

/-- The scope in which a reference stands for nothing. -/
def without (ρ : Scope) : Reference → Scope
  | .binding name => { ρ with bindings := ρ.bindings.erase name }
  | .function name => { ρ with functions := ρ.functions.erase name }

variable {ρ ρ' : Scope} {x y : Reference}

theorem SameAt.knows_eq (h : ρ.SameAt ρ' x) : ρ'.knows x = ρ.knows x := by
  cases x <;> exact congrArg Option.isSome h

theorem sameAt_without (h : y ≠ x) : ρ.SameAt (ρ.without x) y := by
  cases x <;> cases y <;> simp_all [SameAt, without]

theorem knows_without_self (x : Reference) : (ρ.without x).knows x = false := by
  cases x <;> simp [knows, without, Table.contains]

theorem knows_of_without (h : (ρ.without x).knows y) : ρ.knows y := by
  by_cases hyx : y = x
  · rw [hyx, knows_without_self] at h
    exact absurd h (by simp)
  · rwa [(sameAt_without hyx).knows_eq] at h

/-- What a scope knows, it has in common with one in which names were added. -/
theorem sameAt_of_extends
    (hbindings : ∀ name v, ρ.bindings.get? name = some v → ρ'.bindings.get? name = some v)
    (hfunctions : ∀ name f, ρ.functions.get? name = some f → ρ'.functions.get? name = some f)
    (hx : ρ.knows x) : ρ.SameAt ρ' x := by
  cases x with
  | binding name =>
    obtain ⟨v, hv⟩ := Option.isSome_iff_exists.mp hx
    exact (hbindings name v hv).trans hv.symm
  | function name =>
    obtain ⟨f, hf⟩ := Option.isSome_iff_exists.mp hx
    exact (hfunctions name f hf).trans hf.symm

end Scope

/-- The name that an error is about, if it is a name that stands for nothing. -/
def EvalError.reference? : EvalError → Option Reference
  | undefinedVariable name _ => some (.binding name)
  | undefinedFunction name _ => some (.function name)
  | unexpectedToken _ _ | depthExceeded _ _ | unclosedParen _ | trailingTokens _ _ => none

theorem EvalError.reference?_eq_none {e : EvalError} (h : e.isStructural) :
    e.reference? = none := by
  cases e <;> simp_all [isStructural, reference?]

/-! ## Two runs -/

namespace Run

variable {α β : Type} {ρ ρ' : Scope}

/-- A run is stopped at a name. -/
def StoppedAt (r : Run α) (x : Reference) : Prop := ∃ e, r.result = .error e ∧ e.reference? = some x

theorem stoppedAt_fail {e : EvalError} {x : Reference} (he : e.reference? = some x) :
    (fail e : Run α).StoppedAt x := ⟨e, rfl, he⟩

theorem StoppedAt.bind {r : Run α} {x : Reference} (h : r.StoppedAt x) (f : α → Run β) :
    (r >>= f).StoppedAt x := by
  obtain ⟨e, he, hx⟩ := h
  obtain ⟨result, calls⟩ := r
  obtain rfl : result = .error e := he
  exact ⟨e, rfl, hx⟩

theorem StoppedAt.reference?_eq {r : Run α} {x : Reference} (h : r.StoppedAt x) {e : EvalError}
    (he : r.result = .error e) : e.reference? = some x := by
  obtain ⟨e', he', hname⟩ := h
  obtain rfl := Except.error.inj (he.symm.trans he')
  exact hname

/-- The second run is the first, or goes on where the first was stopped at a name that stands for
something in the second one's scope. -/
inductive Resumes (ρ' : Scope) (r r' : Run α) : Prop
  | same (h : r' = r)
  | further {x : Reference} (hstopped : r.StoppedAt x) (hx : ρ'.knows x)
    (hcalls : r.calls <+: r'.calls)

/-- Where nothing stops the first of two runs, the second one is the same. -/
theorem Resumes.eq_of_ok {r r' : Run α} (h : Resumes ρ' r r') {a : α} (ha : r.result = .ok a) :
    r' = r := by
  cases h with
  | same h => exact h
  | further hstopped =>
    obtain ⟨e, he, -⟩ := hstopped
    exact absurd (he.symm.trans ha) (by simp)

theorem Resumes.bind {r r' : Run α} {f f' : α → Run β} (h : Resumes ρ' r r')
    (hf : ∀ a, r.result = .ok a → Resumes ρ' (f a) (f' a)) :
    Resumes ρ' (r >>= f) (r' >>= f') := by
  cases h with
  | further hstopped hx hcalls =>
    refine .further (hstopped.bind f) hx ?_
    obtain ⟨e, he, -⟩ := hstopped
    obtain ⟨result, calls⟩ := r
    obtain rfl : result = .error e := he
    exact hcalls.trans (begins_bind r' f').prefix_calls
  | same h =>
    subst h
    obtain ⟨e | a, calls⟩ := r'
    · exact .same rfl
    · cases hf a rfl with
      | same hsame => exact .same (by rw [bind_ok, bind_ok, hsame])
      | further hstopped hx hcalls =>
        exact .further hstopped hx ((List.prefix_append_right_inj calls).mpr hcalls)

/-- The names that come of the result of a run; none if it was stopped. -/
def andNames (r : Run α) (names : α → List Reference) : List Reference :=
  match r.result with
  | .ok a => names a
  | .error _ => []

theorem mem_andNames {r : Run α} {names : α → List Reference} {x : Reference} :
    x ∈ r.andNames names ↔ ∃ a, r.result = .ok a ∧ x ∈ names a := by
  unfold andNames
  cases r.result <;> simp

theorem andNames_eq_nil {r : Run α} {names : α → List Reference} (h : ∀ a, names a = []) :
    r.andNames names = [] := by
  unfold andNames
  split
  · exact h _
  · rfl

/-- How two runs in different scopes look up names, where the first one looks up `names`. -/
structure Resolves (ρ ρ' : Scope) (names : List Reference) (r r' : Run α) : Prop where
  knows : ∀ a, r.result = .ok a → ∀ x ∈ names, ρ.knows x
  not_knows : ∀ x, r.StoppedAt x → ρ.knows x = false
  /-- If the scopes have the same under the names that are resolved, the second run does what the
  first does. -/
  resumes : (∀ x ∈ names, ρ.knows x → ρ.SameAt ρ' x) → Resumes ρ' r r'
  /-- If they differ under one of them alone, the second run stops there. -/
  needs : ∀ x ∈ names, ρ.knows x → ρ'.knows x = false → (∀ y ≠ x, ρ.SameAt ρ' y) → r'.StoppedAt x

theorem resolves_pure (a : α) : Resolves ρ ρ' [] (pure a) (pure a) where
  knows _ _ _ hx := absurd hx List.not_mem_nil
  not_knows x h := by
    obtain ⟨e, he, -⟩ := h
    exact absurd he (by simp [pure_eq])
  resumes _ := .same rfl
  needs _ hx := absurd hx List.not_mem_nil

theorem resolves_fail {e : EvalError} (he : e.isStructural) :
    Resolves ρ ρ' [] (fail e : Run α) (fail e) where
  knows _ _ _ hx := absurd hx List.not_mem_nil
  not_knows x h := by
    have hname := h.reference?_eq rfl
    rw [EvalError.reference?_eq_none he] at hname
    exact absurd hname (by simp)
  resumes _ := .same rfl
  needs _ hx := absurd hx List.not_mem_nil

/-- **Names that are looked up one behind the other.** -/
theorem Resolves.bind {names : List Reference} {r r' : Run α} {f f' : α → Run β}
    {later : α → List Reference} (h : Resolves ρ ρ' names r r')
    (hf : ∀ a, Resolves ρ ρ' (later a) (f a) (f' a)) :
    Resolves ρ ρ' (names ++ r.andNames later) (r >>= f) (r' >>= f') where
  knows b hb x hx := by
    obtain ⟨a, calls, rfl, hb⟩ := bind_eq_ok hb
    rcases List.mem_append.mp hx with hx | hx
    · exact h.knows a rfl x hx
    · exact (hf a).knows b hb x hx
  not_knows x hx := by
    obtain ⟨e, he, hname⟩ := hx
    rcases bind_eq_error he with he | ⟨a, calls, -, he⟩
    · exact h.not_knows x ⟨e, he, hname⟩
    · exact (hf a).not_knows x ⟨e, he, hname⟩
  resumes hsame := by
    obtain ⟨hfirst, hlater⟩ := List.forall_mem_append.mp hsame
    exact (h.resumes hfirst).bind fun a ha ↦
      (hf a).resumes fun x hx ↦ hlater x (mem_andNames.mpr ⟨a, ha, hx⟩)
  needs x hx hknown hunknown hothers := by
    by_cases hfirst : x ∈ names
    · exact (h.needs x hfirst hknown hunknown hothers).bind f'
    -- up to the second run no name is missing, so the first one has the same result in both scopes
    · obtain ⟨a, ha, hlater⟩ := mem_andNames.mp ((List.mem_append.mp hx).resolve_left hfirst)
      have hsame : Resumes ρ' r r' := h.resumes fun y hy _ ↦ hothers y fun hyx ↦ hfirst (hyx ▸ hy)
      obtain rfl := hsame.eq_of_ok ha
      obtain ⟨e, he, hname⟩ := (hf a).needs x hlater hknown hunknown hothers
      obtain ⟨result, calls⟩ := r'
      obtain rfl : result = .ok a := ha
      exact ⟨e, he, hname⟩

/-- What looks up nothing adds nothing. -/
theorem Resolves.bind_nil {names : List Reference} {r r' : Run α} {f f' : α → Run β}
    (h : Resolves ρ ρ' names r r') (hf : ∀ a, Resolves ρ ρ' [] (f a) (f' a)) :
    Resolves ρ ρ' names (r >>= f) (r' >>= f') := by
  have hbind : Resolves ρ ρ' (names ++ r.andNames fun _ ↦ []) (r >>= f) (r' >>= f') := h.bind hf
  rwa [andNames_eq_nil fun _ ↦ rfl, List.append_nil] at hbind

theorem Resolves.map {names : List Reference} {r r' : Run α} (h : Resolves ρ ρ' names r r')
    (f : α → β) : Resolves ρ ρ' names (r >>= fun a ↦ pure (f a)) (r' >>= fun a ↦ pure (f a)) :=
  h.bind_nil fun a ↦ resolves_pure (f a)

/-- What is found under a name, or the failure that there is nothing. -/
def orFail {γ : Type} (found : Option γ) (e : EvalError) (f : γ → Run α) : Run α :=
  match found with
  | some c => f c
  | none => fail e

/-- **A single look-up.** -/
theorem resolves_orFail {γ : Type} {x : Reference} {found found' : Option γ} {e : EvalError}
    {f : γ → Run α} (hfound : ρ.knows x = found.isSome) (hfound' : ρ'.knows x = found'.isSome)
    (hsame : ρ.SameAt ρ' x → found' = found) (he : e.reference? = some x)
    (hf : ∀ c, ∃ a, (f c).result = .ok a) :
    Resolves ρ ρ' [x] (orFail found e f) (orFail found' e f) where
  knows a ha y hy := by
    obtain rfl := List.mem_singleton.mp hy
    cases found with
    | some c => exact hfound
    | none => exact absurd ha (by simp [orFail, fail])
  not_knows y hy := by
    cases found with
    | some c =>
      obtain ⟨a, ha⟩ := hf c
      obtain ⟨e', he', -⟩ := hy
      exact absurd (he'.symm.trans ha) (by simp)
    | none =>
      obtain rfl := Option.some.inj (he.symm.trans (hy.reference?_eq rfl))
      exact hfound
  resumes hon := by
    cases found with
    | some c =>
      rw [hsame (hon x (List.mem_singleton_self x) hfound)]
      exact .same rfl
    | none =>
      cases found' with
      | some c => exact .further (stoppedAt_fail he) hfound' List.nil_prefix
      | none => exact .same rfl
  needs y hy _ hunknown _ := by
    obtain rfl := List.mem_singleton.mp hy
    cases found' with
    | some c => exact absurd (hfound'.symm.trans hunknown) (by simp)
    | none => exact stoppedAt_fail he

end Run

/-! ## The names of a tree -/

namespace Tree

mutual

/-- The names that the evaluation of a tree looks up, in order. If one of them stops it, that is the
last. -/
def lookUps (ρ : Scope) (skipping : Bool) : Tree → List Reference
  | literal _ => []
  | named name _ => if skipping then [] else [.binding name]
  | call name arguments _ =>
    lookUpsAll ρ skipping arguments ++ (evaluateAll ρ skipping arguments).andNames fun _ ↦
      if skipping then [] else [.function name]
  | not operand => lookUps ρ skipping operand
  | joined j left right =>
    lookUps ρ skipping left ++ (left.evaluate ρ skipping).andNames fun v ↦
      lookUps ρ (skipping || ρ.shortCircuit && j.isDecidedBy v) right

def lookUpsAll (ρ : Scope) (skipping : Bool) : List Tree → List Reference
  | [] => []
  | t :: ts =>
    lookUps ρ skipping t ++ (t.evaluate ρ skipping).andNames fun _ ↦ lookUpsAll ρ skipping ts

end

def Frame.lookUps (ρ : Scope) (skipping : Bool) : Frame → List Reference
  | after t | right _ t => t.lookUps ρ skipping

/-- The names that are looked up in what was read before a failure. -/
def lookUpsDraft (ρ : Scope) (skipping : Bool) : List Frame → List Reference
  | [] => []
  | f :: draft =>
    f.lookUps ρ skipping ++ (f.enter ρ skipping).andNames fun skipping' ↦
      lookUpsDraft ρ skipping' draft

mutual

/-- **What is passed over looks up nothing.** -/
theorem lookUps_skipping (ρ : Scope) : ∀ t : Tree, t.lookUps ρ true = []
  | literal v => rfl
  | named name offset => rfl
  | call name arguments offset => by
    rw [lookUps, lookUpsAll_skipping ρ arguments, List.nil_append]
    exact Run.andNames_eq_nil fun _ ↦ rfl
  | not operand => by rw [lookUps, lookUps_skipping ρ operand]
  | joined j left right => by
    rw [lookUps, lookUps_skipping ρ left, List.nil_append]
    exact Run.andNames_eq_nil fun v ↦ lookUps_skipping ρ right

theorem lookUpsAll_skipping (ρ : Scope) : ∀ ts : List Tree, lookUpsAll ρ true ts = []
  | [] => rfl
  | t :: ts => by
    rw [lookUpsAll, lookUps_skipping ρ t, List.nil_append]
    exact Run.andNames_eq_nil fun v ↦ lookUpsAll_skipping ρ ts

end

/-- So the names of a decided operand do not matter under short-circuiting. -/
theorem lookUps_joined_of_isDecidedBy {ρ : Scope} (hρ : ρ.shortCircuit) {j : Joint}
    {left : Tree} {v : Value} (hleft : (left.evaluate ρ false).result = .ok v)
    (hj : j.isDecidedBy v) (right : Tree) :
    (joined j left right).lookUps ρ false = left.lookUps ρ false := by
  have hskipping : (false || ρ.shortCircuit && j.isDecidedBy v) = true := by rw [hρ, hj]; rfl
  have hright : (left.evaluate ρ false).andNames (fun v ↦
      right.lookUps ρ (false || ρ.shortCircuit && j.isDecidedBy v)) = [] := by
    rw [Run.andNames, hleft]
    simp only [hskipping, lookUps_skipping]
  rw [lookUps, hright, List.append_nil]

/-- `a or f(b)` looks up `a` alone if it holds. -/
example : (joined .or (named "a" 0) (call "f" [named "b" 7] 5)).lookUps
    ⟨Table.empty.insert "a" (.boolean true), ∅, true⟩ false = [.binding "a"] := by decide

/-! ## Trees in two scopes -/

section Scopes

open Run (Resolves)

variable {ρ ρ' : Scope}

theorem lookUp_eq (name : String) (offset : Nat) : ρ.lookUp false name offset
    = Run.orFail (ρ.bindings.get? name) (.undefinedVariable name offset) pure := by
  simp only [Scope.lookUp, Run.orFail, Bool.false_eq_true, if_false]
  cases ρ.bindings.get? name <;> rfl

theorem call_eq (name : String) (vs : List Value) (offset : Nat) : ρ.call false name vs offset
    = Run.orFail (ρ.functions.get? name) (.undefinedFunction name offset) fun f ↦
        ⟨.ok (f.apply vs), if f.isHost then [⟨name, vs⟩] else []⟩ := by
  simp only [Scope.call, Run.orFail, Bool.false_eq_true, if_false]
  cases ρ.functions.get? name <;> rfl

theorem resolves_lookUp (skipping : Bool) (name : String) (offset : Nat) :
    Resolves ρ ρ' (if skipping then [] else [.binding name]) (ρ.lookUp skipping name offset)
      (ρ'.lookUp skipping name offset) := by
  cases skipping with
  | true => exact Run.resolves_pure _
  | false =>
    rw [lookUp_eq, lookUp_eq]
    exact Run.resolves_orFail rfl rfl id rfl fun v ↦ ⟨v, rfl⟩

theorem resolves_call (skipping : Bool) (name : String) (vs : List Value) (offset : Nat) :
    Resolves ρ ρ' (if skipping then [] else [.function name]) (ρ.call skipping name vs offset)
      (ρ'.call skipping name vs offset) := by
  cases skipping with
  | true => exact Run.resolves_pure _
  | false =>
    rw [call_eq, call_eq]
    exact Run.resolves_orFail rfl rfl id rfl fun f ↦ ⟨f.apply vs, rfl⟩

mutual

/-- **What a tree comes to depends on the names that it resolves.** -/
theorem resolves_evaluate (hscopes : ρ'.shortCircuit = ρ.shortCircuit) :
    ∀ (t : Tree) (skipping : Bool),
      Resolves ρ ρ' (t.lookUps ρ skipping) (t.evaluate ρ skipping) (t.evaluate ρ' skipping)
  | literal v, skipping => Run.resolves_pure v
  | named name offset, skipping => resolves_lookUp skipping name offset
  | call name arguments offset, skipping => by
    rw [evaluate, evaluate, lookUps]
    exact (resolves_evaluateAll hscopes arguments skipping).bind fun vs ↦
      resolves_call skipping name vs offset
  | not operand, skipping => by
    rw [evaluate, evaluate, lookUps]
    exact (resolves_evaluate hscopes operand skipping).map _
  | joined j left right, skipping => by
    rw [evaluate, evaluate, lookUps, hscopes]
    exact (resolves_evaluate hscopes left skipping).bind fun v ↦
      (resolves_evaluate hscopes right _).map _

theorem resolves_evaluateAll (hscopes : ρ'.shortCircuit = ρ.shortCircuit) :
    ∀ (ts : List Tree) (skipping : Bool), Resolves ρ ρ' (lookUpsAll ρ skipping ts)
      (evaluateAll ρ skipping ts) (evaluateAll ρ' skipping ts)
  | [], skipping => Run.resolves_pure []
  | t :: ts, skipping => by
    rw [evaluateAll, evaluateAll, lookUpsAll]
    exact (resolves_evaluate hscopes t skipping).bind fun v ↦
      (resolves_evaluateAll hscopes ts skipping).map _

end

/-- So does what was read before a failure. -/
theorem resolves_enterAll (hscopes : ρ'.shortCircuit = ρ.shortCircuit) (draft : List Frame) :
    ∀ skipping : Bool, Resolves ρ ρ' (lookUpsDraft ρ skipping draft) (enterAll ρ skipping draft)
      (enterAll ρ' skipping draft) := by
  induction draft with
  | nil => exact fun skipping ↦ Run.resolves_pure skipping
  | cons f draft ih =>
    intro skipping
    rw [enterAll_cons, enterAll_cons, lookUpsDraft]
    refine Run.Resolves.bind ?_ ih
    cases f with
    | after t => exact (resolves_evaluate hscopes t skipping).map _
    | right j left =>
      simp only [Frame.enter, hscopes]
      exact (resolves_evaluate hscopes left skipping).map _

end Scopes

end Tree

/-! ## Whole lists of tokens -/

/-- The names that are looked up in what reading came to. -/
def outcomeLookUps (ρ : Scope) : Except Failure (Part Tree) → List Reference
  | .ok p => p.value.lookUps ρ false
  | .error f => lookUpsDraft ρ false f.draft

/-- The names that an evaluation looks up, in order. -/
def lookUps (tokens : List Token) (bindings : Table Value) (functions : Table Callable)
    (options : Options) : List Reference :=
  outcomeLookUps ⟨bindings, functions, options.shortCircuit⟩
    (Tree.read tokens options.strict options.maxDepth)

/-- The names that an evaluation looks up and that stand for something: all of them, or all but the
last. -/
def resolved (tokens : List Token) (bindings : Table Value) (functions : Table Callable)
    (options : Options) : List Reference :=
  (lookUps tokens bindings functions options).filter
    (Scope.knows ⟨bindings, functions, options.shortCircuit⟩)

section Whole

variable {ρ ρ' : Scope}

theorem resolves_outcomeRun (hscopes : ρ'.shortCircuit = ρ.shortCircuit)
    {outcome : Except Failure (Part Tree)}
    (hform : ∀ f, outcome = .error f → f.error.isStructural) :
    Run.Resolves ρ ρ' (outcomeLookUps ρ outcome) (outcomeRun ρ outcome)
      (outcomeRun ρ' outcome) := by
  cases outcome with
  | ok p => exact resolves_evaluate hscopes p.value false
  | error f =>
    exact (resolves_enterAll hscopes f.draft false).bind_nil fun _ ↦
      Run.resolves_fail (hform f rfl)

variable (tokens : List Token) (bindings bindings' : Table Value)
  (functions functions' : Table Callable) (options : Options)

theorem resolves_evaluateTokens :
    Run.Resolves ⟨bindings, functions, options.shortCircuit⟩
      ⟨bindings', functions', options.shortCircuit⟩ (lookUps tokens bindings functions options)
      (evaluateTokens tokens bindings functions options).run
      (evaluateTokens tokens bindings' functions' options).run := by
  rw [(agrees_evaluateTokens tokens bindings functions options).run,
    (agrees_evaluateTokens tokens bindings' functions' options).run]
  exact resolves_outcomeRun (by rfl) fun f hf ↦ (Tree.blames_read hf).2.isStructural

variable {tokens bindings bindings' functions functions' options}

/-- Where two evaluations come to the same, the same is left over, unless a name stopped them. -/
theorem unread_eq_of_run_eq
    (h : (evaluateTokens tokens bindings' functions' options).run
      = (evaluateTokens tokens bindings functions options).run)
    (hform : ∀ e, (evaluateTokens tokens bindings functions options).result = .error e →
      e.isStructural) :
    (evaluateTokens tokens bindings' functions' options).unread
      = (evaluateTokens tokens bindings functions options).unread := by
  have hagrees := agrees_evaluateTokens tokens bindings functions options
  have hagrees' := agrees_evaluateTokens tokens bindings' functions' options
  have hresult := congrArg Run.result h
  simp only [Report.run] at hresult
  cases heq : (evaluateTokens tokens bindings functions options).result with
  | ok v =>
    obtain ⟨p, hp, hunread⟩ := hagrees.unread_of_ok v heq
    obtain ⟨p', hp', hunread'⟩ := hagrees'.unread_of_ok v (hresult.trans heq)
    obtain rfl := Except.ok.inj (hp.symm.trans hp')
    exact hunread'.trans hunread.symm
  | error e =>
    obtain ⟨f, hf, hunread⟩ := hagrees.unread_of_structural e heq (hform e heq)
    obtain ⟨f', hf', hunread'⟩ :=
      hagrees'.unread_of_structural e (hresult.trans heq) (hform e heq)
    obtain rfl := Except.error.inj (hf.symm.trans hf')
    exact hunread'.trans hunread.symm

/-- **A name is resolved if the evaluation stops without it.** -/
theorem mem_resolved_iff {x : Reference} :
    let ρ : Scope := ⟨bindings, functions, options.shortCircuit⟩
    x ∈ resolved tokens bindings functions options ↔ ρ.knows x ∧
      (evaluateTokens tokens (ρ.without x).bindings (ρ.without x).functions options).run.StoppedAt
        x := by
  intro ρ
  have hresolves := resolves_evaluateTokens tokens bindings (ρ.without x).bindings functions
    (ρ.without x).functions options
  have hscope : (⟨(ρ.without x).bindings, (ρ.without x).functions, options.shortCircuit⟩ : Scope)
      = ρ.without x := by cases x <;> rfl
  rw [hscope] at hresolves
  rw [resolved, List.mem_filter]
  constructor
  · rintro ⟨hx, hknown⟩
    exact ⟨hknown, hresolves.needs x hx hknown (Scope.knows_without_self x) fun y hy ↦
      Scope.sameAt_without hy⟩
  · rintro ⟨hknown, hstopped⟩
    refine ⟨Decidable.byContradiction fun hx ↦ ?_, hknown⟩
    -- a name that is not looked up is not missed: without it the evaluation would be the same
    have hsame := hresolves.resumes fun y hy _ ↦ Scope.sameAt_without fun hyx ↦ hx (hyx ▸ hy)
    cases hsame with
    | same hsame =>
      have hunknown := hresolves.not_knows x (hsame ▸ hstopped)
      exact absurd (hknown.symm.trans hunknown) (by simp)
    | further hfirst hy =>
      have hunknown := hresolves.not_knows _ hfirst
      exact absurd ((Scope.knows_of_without hy).symm.trans hunknown) (by simp)

/-- **An evaluation under tables with the same entries is the same.** -/
theorem evaluateTokens_congr (tokens : List Token) (options : Options)
    (hbindings : ∀ name, bindings'.get? name = bindings.get? name)
    (hfunctions : ∀ name, functions'.get? name = functions.get? name) :
    (evaluateTokens tokens bindings' functions' options).run
      = (evaluateTokens tokens bindings functions options).run := by
  have hresolves := resolves_evaluateTokens tokens bindings bindings' functions functions' options
  have hsame : ∀ x, Scope.SameAt ⟨bindings, functions, options.shortCircuit⟩
      ⟨bindings', functions', options.shortCircuit⟩ x := by
    rintro (name | name)
    · exact hbindings name
    · exact hfunctions name
  cases hresolves.resumes fun x _ _ ↦ hsame x with
  | same h => exact h
  | further hstopped hknown =>
    -- a name that is missing in one table is missing in the other
    have hunknown := hresolves.not_knows _ hstopped
    rw [(hsame _).knows_eq] at hknown
    exact absurd (hknown.symm.trans hunknown) (by simp)

end Whole

/-- **An evaluation depends only on the names that it resolves.** These are the names without which
it would stop. Another evaluation of the same tokens that has the same under them has the same value
or the same error of form, behind the same calls; if the first is stopped by a name, so is the
other, unless that name stands for something there, and then it makes the same calls before any
others. So a value stays what it is whatever names are added. The names in an operand that is passed
over are not among those that count. -/
theorem evaluateTokens_resolved (tokens : List Token) (options : Options)
    (bindings bindings' : Table Value) (functions functions' : Table Callable) :
    let ρ : Scope := ⟨bindings, functions, options.shortCircuit⟩
    let ρ' : Scope := ⟨bindings', functions', options.shortCircuit⟩
    let report := evaluateTokens tokens bindings functions options
    let report' := evaluateTokens tokens bindings' functions' options
    ((∀ x ∈ resolved tokens bindings functions options, ρ.SameAt ρ' x) →
      (∀ v, report.result = .ok v →
        report'.result = .ok v ∧ report'.calls = report.calls ∧ report'.unread = report.unread) ∧
      (∀ e, report.result = .error e → e.isStructural →
        report'.result = .error e ∧ report'.calls = report.calls ∧
          report'.unread = report.unread) ∧
      ∀ e x, report.result = .error e → e.reference? = some x →
        (ρ'.knows x = false → report'.result = .error e ∧ report'.calls = report.calls) ∧
        (ρ'.knows x → report.calls <+: report'.calls)) ∧
    ((∀ name v, bindings.get? name = some v → bindings'.get? name = some v) →
      (∀ name f, functions.get? name = some f → functions'.get? name = some f) →
      ∀ v, report.result = .ok v → report'.result = .ok v ∧ report'.calls = report.calls) ∧
    (options.shortCircuit → ∀ (j : Joint) (left right : Tree) (v : Value),
      (left.evaluate ρ false).result = .ok v → j.isDecidedBy v →
        (Tree.joined j left right).lookUps ρ false = left.lookUps ρ false) ∧
    ∀ x, x ∈ resolved tokens bindings functions options ↔ ρ.knows x ∧
      (evaluateTokens tokens (ρ.without x).bindings (ρ.without x).functions options).run.StoppedAt
        x := by
  intro ρ ρ' report report'
  have hresolves := resolves_evaluateTokens tokens bindings bindings' functions functions' options
  have hresumes (h : ∀ x ∈ resolved tokens bindings functions options, ρ.SameAt ρ' x) :
      Run.Resumes ρ' report.run report'.run :=
    hresolves.resumes fun x hx hknown ↦ h x (List.mem_filter.mpr ⟨hx, hknown⟩)
  refine ⟨fun h ↦ ⟨fun v hv ↦ ?_, fun e he hform ↦ ?_, fun e x he hx ↦ ?_⟩,
    fun hbindings hfunctions v hv ↦ ?_, fun hshort j left right v hleft hj ↦
      lookUps_joined_of_isDecidedBy hshort hleft hj right, fun x ↦ mem_resolved_iff⟩
  · have hrun : report'.run = report.run := (hresumes h).eq_of_ok hv
    have hunread := unread_eq_of_run_eq hrun fun e he ↦ absurd (hv.symm.trans he) (by simp)
    exact ⟨(congrArg Run.result hrun).trans hv, congrArg Run.calls hrun, hunread⟩
  · cases hresumes h with
    | same hrun =>
      have hunread := unread_eq_of_run_eq hrun fun e' he' ↦
        Except.error.inj (he.symm.trans he') ▸ hform
      exact ⟨(congrArg Run.result hrun).trans he, congrArg Run.calls hrun, hunread⟩
    | further hstopped =>
      have hname := hstopped.reference?_eq he
      rw [EvalError.reference?_eq_none hform] at hname
      exact absurd hname (by simp)
  · cases hresumes h with
    | same hrun =>
      have hcalls : report'.calls = report.calls := congrArg Run.calls hrun
      exact ⟨fun _ ↦ ⟨(congrArg Run.result hrun).trans he, hcalls⟩, fun _ ↦
        hcalls ▸ List.prefix_refl _⟩
    | further hstopped hknown hcalls =>
      obtain rfl := Option.some.inj (hx.symm.trans (hstopped.reference?_eq he))
      exact ⟨fun hunknown ↦ absurd (hknown.symm.trans hunknown) (by simp), fun _ ↦ hcalls⟩
  · have hrun : report'.run = report.run := by
      refine (hresumes fun x hx ↦ ?_).eq_of_ok hv
      exact Scope.sameAt_of_extends hbindings hfunctions (List.mem_filter.mp hx).2
    exact ⟨(congrArg Run.result hrun).trans hv, congrArg Run.calls hrun⟩

end Formula
