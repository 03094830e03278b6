import Formula.Proofs.Routes
import Formula.Session

/-!
# History

What earlier requests have to do with a later answer. Every request changes at most one engine or
one compiled formula, its target, and an evaluation changes none. So what is kept under a name is
what was written there last, or what was written last where it was copied from, up to the time of
copying (`lastWritten`). Here the requests before an answer are listed from the latest to the
earliest, since that is the order in which one looks for the last one that mattered.

An engine is asked for nothing but what names stand for and its options, so every engine that holds
what was written last gives the same answers (`Engine.Holds`, `Engine.Same.evaluate_eq`).
-/

namespace Formula

/-! ## What a request changes -/

/-- What a request can change. -/
inductive Target where
  | engine (name : String)
  | compiled (name : String)
  deriving DecidableEq

/-- What becomes of one of the things kept under the target of a request. -/
inductive Effect (α : Type) where
  | keeps
  | writes (a : α)
  /-- It becomes what is kept under another name. -/
  | copies (source : Target)

/-- What is kept under a target, if an effect comes on top of what was kept under all of them. -/
def Effect.apply {α : Type} (kept : Target → α) (target : Target) : Effect α → α
  | keeps => kept target
  | writes a => a
  | copies source => kept source

namespace Request

/-- The one thing that a request changes. An evaluation changes nothing, nor does a request that
only looks. -/
def target? : Request → Option Target
  | reset engine _ | setConstant engine _ _ | removeConstant engine _ | setFunction engine _ _
  | removeFunction engine _ | setOptions engine _ => some (.engine engine)
  | clone _ copy => some (.engine copy)
  | compile name _ _ | setCompiledOptions name _ => some (.compiled name)
  | inspect _ | evaluate _ _ _ | evaluateRule _ _ _ | evaluatePlain _ _ | evaluateCompiled _ _
  | compare _ _ => none

/-- What becomes of the constant of a name. -/
def onConstant (name : String) : Request → Effect (Option Value)
  | reset _ _ => .writes none
  | setConstant _ name' value => if name = name' then .writes (some value) else .keeps
  | removeConstant _ name' => if name = name' then .writes none else .keeps
  | clone engine _ => .copies (.engine engine)
  | _ => .keeps

/-- What becomes of the function of a name. -/
def onFunction (name : String) : Request → Effect (Option Callable)
  | reset _ standard => .writes (if standard then standardFunctions.get? name else none)
  | setFunction _ name' f => if name = name' then .writes (some f) else .keeps
  | removeFunction _ name' => if name = name' then .writes none else .keeps
  | clone engine _ => .copies (.engine engine)
  | _ => .keeps

/-- What becomes of the options. -/
def onOptions : Request → Effect Options
  | reset _ _ => .writes {}
  | setOptions _ options | compile _ _ options | setCompiledOptions _ options => .writes options
  | clone engine _ => .copies (.engine engine)
  | _ => .keeps

/-- What becomes of the text of a compiled formula. -/
def onText : Request → Effect (Option String)
  | compile _ source _ => .writes (some source)
  | _ => .keeps

end Request

section LastWritten

variable {α : Type} (effect : Request → Effect α) (blank : α)

/-- What was written last under a target, by requests that are listed from the latest to the
earliest. A copy is what was last written to its source before. -/
def lastWritten : List Request → Target → α
  | [], _ => blank
  | r :: earlier, target =>
    if r.target? = some target then (effect r).apply (lastWritten earlier) target
    else lastWritten earlier target

variable {effect blank} {r : Request} {earlier : List Request} {target : Target}

theorem lastWritten_of_eq (h : r.target? = some target) :
    lastWritten effect blank (r :: earlier) target
      = (effect r).apply (lastWritten effect blank earlier) target :=
  if_pos h

theorem lastWritten_of_ne (h : r.target? ≠ some target) :
    lastWritten effect blank (r :: earlier) target = lastWritten effect blank earlier target :=
  if_neg h

theorem eq_lastWritten_of_writes {a : α} (h : r.target? = some target)
    (heffect : effect r = .writes a) :
    a = lastWritten effect blank (r :: earlier) target := by
  rw [lastWritten_of_eq h, heffect]
  rfl

theorem lastWritten_of_copies {source : Target} (h : r.target? = some target)
    (heffect : effect r = .copies source) :
    lastWritten effect blank (r :: earlier) target = lastWritten effect blank earlier source := by
  rw [lastWritten_of_eq h, heffect]
  rfl

theorem lastWritten_of_keeps (h : effect r = .keeps) :
    lastWritten effect blank (r :: earlier) target = lastWritten effect blank earlier target := by
  rw [lastWritten, h]
  exact ite_self _

end LastWritten

/-- A clone keeps what its source held when it was made. -/
example : lastWritten (Request.onConstant "x") none
    [.setConstant "main" "x" (.boolean false), .clone "main" "copy",
      .setConstant "main" "x" (.boolean true)] (.engine "copy") = some (.boolean true) := rfl

/-! ## Engines that hold what was written -/

namespace Engine

/-- An engine holds what was written last under a name. -/
structure Holds (e : Engine) (earlier : List Request) (name : String) : Prop where
  constants : ∀ constant, e.constants.get? constant
    = lastWritten (Request.onConstant constant) none earlier (.engine name)
  functions : ∀ function, e.functions.get? function
    = lastWritten (Request.onFunction function) none earlier (.engine name)
  options : e.options = lastWritten Request.onOptions {} earlier (.engine name)

namespace Holds

variable {e e' : Engine} {earlier : List Request} {name : String}

/-- What an engine holds decides what it answers. -/
theorem same (h : e.Holds earlier name) (h' : e'.Holds earlier name) : e.Same e' where
  constants constant := (h'.constants constant).trans (h.constants constant).symm
  functions function := (h'.functions function).trans (h.functions function).symm
  options := h'.options.trans h.options.symm

theorem empty (name : String) : Engine.empty.Holds [] name := ⟨fun _ ↦ rfl, fun _ ↦ rfl, rfl⟩

theorem of_ne (h : e.Holds earlier name) {r : Request} (hr : r.target? ≠ some (.engine name)) :
    e.Holds (r :: earlier) name where
  constants constant := (h.constants constant).trans (lastWritten_of_ne hr).symm
  functions function := (h.functions function).trans (lastWritten_of_ne hr).symm
  options := h.options.trans (lastWritten_of_ne hr).symm

theorem reset (earlier : List Request) (name : String) (standard : Bool) :
    (if standard then Engine.standard else .empty).Holds
      (.reset name standard :: earlier) name := by
  cases standard <;> exact ⟨fun _ ↦ eq_lastWritten_of_writes rfl rfl,
    fun _ ↦ eq_lastWritten_of_writes rfl rfl, eq_lastWritten_of_writes rfl rfl⟩

theorem setConstant (h : e.Holds earlier name) (constant : String) (value : Value) :
    ({ e with constants := e.constants.insert constant value } : Engine).Holds
      (.setConstant name constant value :: earlier) name where
  constants constant' := by
    rw [lastWritten_of_eq rfl, Table.get?_insert, h.constants, Request.onConstant]
    split <;> rfl
  functions function := (h.functions function).trans (lastWritten_of_keeps rfl).symm
  options := h.options.trans (lastWritten_of_keeps rfl).symm

theorem removeConstant (h : e.Holds earlier name) (constant : String) :
    ({ e with constants := e.constants.erase constant } : Engine).Holds
      (.removeConstant name constant :: earlier) name where
  constants constant' := by
    rw [lastWritten_of_eq rfl, Table.get?_erase, h.constants, Request.onConstant]
    split <;> rfl
  functions function := (h.functions function).trans (lastWritten_of_keeps rfl).symm
  options := h.options.trans (lastWritten_of_keeps rfl).symm

theorem setFunction (h : e.Holds earlier name) (function : String) (f : Callable) :
    ({ e with functions := e.functions.insert function f } : Engine).Holds
      (.setFunction name function f :: earlier) name where
  constants constant := (h.constants constant).trans (lastWritten_of_keeps rfl).symm
  functions function' := by
    rw [lastWritten_of_eq rfl, Table.get?_insert, h.functions, Request.onFunction]
    split <;> rfl
  options := h.options.trans (lastWritten_of_keeps rfl).symm

theorem removeFunction (h : e.Holds earlier name) (function : String) :
    ({ e with functions := e.functions.erase function } : Engine).Holds
      (.removeFunction name function :: earlier) name where
  constants constant := (h.constants constant).trans (lastWritten_of_keeps rfl).symm
  functions function' := by
    rw [lastWritten_of_eq rfl, Table.get?_erase, h.functions, Request.onFunction]
    split <;> rfl
  options := h.options.trans (lastWritten_of_keeps rfl).symm

theorem setOptions (h : e.Holds earlier name) (options : Options) :
    ({ e with options } : Engine).Holds (.setOptions name options :: earlier) name where
  constants constant := (h.constants constant).trans (lastWritten_of_keeps rfl).symm
  functions function := (h.functions function).trans (lastWritten_of_keeps rfl).symm
  options := eq_lastWritten_of_writes rfl rfl

theorem clone (h : e.Holds earlier name) (copy : String) :
    e.Holds (.clone name copy :: earlier) copy where
  constants constant := (h.constants constant).trans (lastWritten_of_copies rfl rfl).symm
  functions function := (h.functions function).trans (lastWritten_of_copies rfl rfl).symm
  options := h.options.trans (lastWritten_of_copies rfl rfl).symm

end Holds

end Engine

namespace Session

/-! ## One request -/

@[simp] theorem engine_putEngine_self (s : Session) (name : String) (e : Engine) :
    (s.putEngine name e).engine name = e := by
  rw [engine, putEngine, Table.get?_insert, if_pos rfl]
  rfl

theorem engine_putEngine_of_ne (s : Session) {put name : String} (h : put ≠ name) (e : Engine) :
    (s.putEngine put e).engine name = s.engine name := by
  rw [engine, putEngine, Table.get?_insert, if_neg h.symm]
  rfl

variable {s : Session} {r : Request} {name : String}

/-- Evaluations change nothing. -/
theorem perform_of_target?_eq_none (h : r.target? = none) : (s.perform r).1 = s := by
  cases r <;> first | rfl | exact absurd h (by simp [Request.target?])

/-- **A request leaves every engine but its target as it is.** -/
theorem engine_perform_of_ne (h : r.target? ≠ some (.engine name)) :
    (s.perform r).1.engine name = s.engine name := by
  have hput : ∀ {put : String} {e : Engine}, some (Target.engine put) ≠ some (.engine name) →
      (s.putEngine put e).engine name = s.engine name := by
    intro put e hput
    exact engine_putEngine_of_ne s (fun heq ↦ hput (by rw [heq])) e
  cases r with
  | setCompiledOptions compiled options =>
    rw [perform]
    split <;> rfl
  | compile | inspect | evaluate | evaluateRule | evaluatePlain | evaluateCompiled | compare => rfl
  | _ => exact hput h

theorem compiled_perform_of_ne (h : r.target? ≠ some (.compiled name)) :
    (s.perform r).1.compiled.get? name = s.compiled.get? name := by
  cases r with
  | compile compiled source options =>
    have hne : name ≠ compiled := fun heq ↦ h (by rw [heq]; rfl)
    exact (Table.get?_insert ..).trans (if_neg hne)
  | setCompiledOptions compiled options =>
    have hne : name ≠ compiled := fun heq ↦ h (by rw [heq]; rfl)
    rw [perform]
    split
    · exact (Table.get?_insert ..).trans (if_neg hne)
    · rfl
  | _ => rfl

/-- A session keeps what was written last. -/
structure Recalls (s : Session) (earlier : List Request) : Prop where
  engine : ∀ name, (s.engine name).Holds earlier name
  compiled : ∀ name, s.compiled.get? name
    = (lastWritten Request.onText none earlier (.compiled name)).map fun source ↦
      (compile source).withOptions (lastWritten Request.onOptions {} earlier (.compiled name))

theorem recalls_empty : Recalls {} [] := ⟨Engine.Holds.empty, fun _ ↦ rfl⟩

theorem Recalls.engine_perform {earlier : List Request} (h : s.Recalls earlier) (r : Request)
    (name : String) : ((s.perform r).1.engine name).Holds (r :: earlier) name := by
  by_cases hr : r.target? = some (.engine name)
  · have hput : ∀ {put : String} {e : Engine}, e.Holds (r :: earlier) put →
        some (Target.engine put) = some (.engine name) →
        ((s.putEngine put e).engine name).Holds (r :: earlier) name := by
      intro put e he hput
      obtain rfl : put = name := by simpa using hput
      rwa [engine_putEngine_self]
    cases r with
    | reset engine standard => exact hput (.reset earlier engine standard) hr
    | setConstant engine constant value => exact hput ((h.engine _).setConstant constant value) hr
    | removeConstant engine constant => exact hput ((h.engine _).removeConstant constant) hr
    | setFunction engine function f => exact hput ((h.engine _).setFunction function f) hr
    | removeFunction engine function => exact hput ((h.engine _).removeFunction function) hr
    | setOptions engine options => exact hput ((h.engine _).setOptions options) hr
    | clone engine copy => exact hput ((h.engine _).clone copy) hr
    | _ => exact absurd hr (by simp [Request.target?])
  · rw [engine_perform_of_ne hr]
    exact (h.engine name).of_ne hr

theorem Recalls.compiled_perform {earlier : List Request} (h : s.Recalls earlier) (r : Request)
    (name : String) : (s.perform r).1.compiled.get? name
      = (lastWritten Request.onText none (r :: earlier) (.compiled name)).map fun source ↦
        (compile source).withOptions
          (lastWritten Request.onOptions {} (r :: earlier) (.compiled name)) := by
  by_cases hr : r.target? = some (.compiled name)
  · cases r with
    | compile compiled source options =>
      obtain rfl : compiled = name := by simpa [Request.target?] using hr
      have htext : some source = lastWritten Request.onText none (.compile compiled source options
          :: earlier) (.compiled compiled) := eq_lastWritten_of_writes rfl rfl
      have hoptions : options = lastWritten Request.onOptions {} (.compile compiled source options
          :: earlier) (.compiled compiled) := eq_lastWritten_of_writes rfl rfl
      rw [← htext, ← hoptions]
      exact (Table.get?_insert ..).trans (if_pos rfl)
    | setCompiledOptions compiled options =>
      obtain rfl : compiled = name := by simpa [Request.target?] using hr
      have hoptions : options = lastWritten Request.onOptions {} (.setCompiledOptions compiled
          options :: earlier) (.compiled compiled) := eq_lastWritten_of_writes rfl rfl
      have hkeeps : (Request.setCompiledOptions compiled options).onText = .keeps := rfl
      rw [← hoptions, lastWritten_of_keeps hkeeps, perform]
      have hbefore := h.compiled compiled
      rcases htext : lastWritten Request.onText none earlier (.compiled compiled) with _ | source
      · rw [htext] at hbefore
        simp [hbefore]
      · rw [htext] at hbefore
        simp [hbefore, Compiled.withOptions]
    | _ => exact absurd hr (by simp [Request.target?])
  · rw [compiled_perform_of_ne hr, lastWritten_of_ne hr, lastWritten_of_ne hr]
    exact h.compiled name

/-- **What is kept is what was written last**, also behind one more request. -/
theorem Recalls.perform {earlier : List Request} (h : s.Recalls earlier) (r : Request) :
    (s.perform r).1.Recalls (r :: earlier) :=
  ⟨h.engine_perform r, h.compiled_perform r⟩

end Session

/-! ## Answers as from a fresh engine -/

/-- Two evaluations have the same result and the same calls. How they came about may differ. -/
structure Evaluation.Agrees (e e' : Evaluation) : Prop where
  result : e.result = e'.result
  calls : e.calls = e'.calls

/-- A compiled formula answers like an engine that holds nothing and has its options. -/
theorem Compiled.agrees_evaluate (source : String) (options : Options) (bindings : Table Value) :
    (((compile source).withOptions options).evaluate bindings).Agrees
      (({ options } : Engine).evaluate source bindings) := by
  have hbindings : ∀ name, ((∅ : Table Value).overlay bindings).get? name = bindings.get? name := by
    intro name
    rw [Table.get?_overlay]
    exact Option.or_none
  by_cases hsource : source = ""
  · subst hsource
    rw [evaluate_nil, Engine.evaluate_nil]
    exact ⟨rfl, rfl⟩
  · have hengine := ({ options } : Engine).reports_evaluate hsource bindings
    have hcompiled := (Compiled.reports_evaluate hsource options bindings).of_run_eq
      (evaluateTokens_congr (tokenize source) options hbindings fun _ ↦ rfl)
    exact ⟨hcompiled.result.trans hengine.result.symm, hcompiled.calls.trans hengine.calls.symm⟩

/-- Whether the answer to an evaluation is that of an engine which holds what was written last and
was never asked before. Of other requests this says nothing. -/
def Request.IsAnsweredAfresh (earlier : List Request) (answer : Answer) : Request → Prop
  | evaluate engine source bindings => ∀ e : Engine, e.Holds earlier engine →
    answer = .evaluation (e.evaluate source bindings)
  | evaluateRule engine source runs => ∀ e : Engine, e.Holds earlier engine →
    answer = .ruleRuns source (runs.map (e.evaluate source))
  | evaluatePlain source bindings => ∀ e : Engine, Engine.empty.Same e →
    answer = .evaluation (e.evaluate source bindings)
  | evaluateCompiled name bindings =>
    let options := lastWritten onOptions {} earlier (.compiled name)
    match lastWritten onText none earlier (.compiled name) with
    | none => answer = .unknownCompiled name
    | some source => ∀ e : Engine, ({ options } : Engine).Same e →
      ∃ evaluation, answer = .evaluation evaluation ∧ evaluation.Agrees (e.evaluate source bindings)
  | _ => True

namespace Session

variable {s : Session} {earlier : List Request}

theorem Recalls.isAnsweredAfresh (h : s.Recalls earlier) (r : Request) :
    r.IsAnsweredAfresh earlier (s.perform r).2 := by
  cases r with
  | evaluate engine source bindings =>
    intro e he
    rw [((h.engine engine).same he).evaluate_eq]
    rfl
  | evaluateRule engine source runs =>
    intro e he
    have hevaluate : e.evaluate source = (s.engine engine).evaluate source :=
      funext (((h.engine engine).same he).evaluate_eq source)
    rw [hevaluate]
    rfl
  | evaluatePlain source bindings =>
    intro e he
    rw [he.evaluate_eq]
    rfl
  | evaluateCompiled name bindings =>
    have hcompiled := h.compiled name
    rw [Request.IsAnsweredAfresh]
    rcases htext : lastWritten Request.onText none earlier (.compiled name) with _ | source
    · rw [htext] at hcompiled
      simp [Session.perform, withCompiled, hcompiled]
    · rw [htext] at hcompiled
      intro e he
      have hagrees := Compiled.agrees_evaluate source
        (lastWritten Request.onOptions {} earlier (.compiled name)) bindings
      rw [← he.evaluate_eq] at hagrees
      refine ⟨_, ?_, hagrees⟩
      simp [Session.perform, withCompiled, hcompiled]
  | _ => trivial

/-! ## Runs -/

theorem performAll_cons (s : Session) (r : Request) (rs : List Request) :
    s.performAll (r :: rs) = (((s.perform r).1.performAll rs).1,
      (s.perform r).2 :: ((s.perform r).1.performAll rs).2) := rfl

theorem performAll_append (s : Session) (rs rs' : List Request) :
    s.performAll (rs ++ rs') = (((s.performAll rs).1.performAll rs').1,
      (s.performAll rs).2 ++ ((s.performAll rs).1.performAll rs').2) := by
  induction rs generalizing s with
  | nil => rfl
  | cons r rs ih =>
    rw [List.cons_append, performAll_cons, ih, performAll_cons]
    rfl

theorem length_performAll (s : Session) (rs : List Request) :
    (s.performAll rs).2.length = rs.length := by
  induction rs generalizing s with
  | nil => rfl
  | cons r rs ih => rw [performAll_cons, List.length_cons, List.length_cons, ih]

/-- **A run keeps what was written last**, for every name. -/
theorem Recalls.performAll (h : s.Recalls earlier) (rs : List Request) :
    (s.performAll rs).1.Recalls (rs.reverse ++ earlier) := by
  induction rs generalizing s earlier with
  | nil => exact h
  | cons r rs ih =>
    rw [performAll_cons, List.reverse_cons, List.append_assoc]
    exact ih (h.perform r)

theorem recalls_performAll (rs : List Request) : (performAll {} rs).1.Recalls rs.reverse := by
  have h := recalls_empty.performAll rs
  rwa [List.append_nil] at h

/-- What no request changes is the same behind all of them. -/
theorem performAll_invariant {α : Type} (view : Session → α) {P : Request → Prop}
    (hstep : ∀ s r, P r → view (s.perform r).1 = view s) (s : Session) {rs : List Request}
    (h : ∀ r ∈ rs, P r) : view (s.performAll rs).1 = view s := by
  induction rs generalizing s with
  | nil => rfl
  | cons r rs ih =>
    obtain ⟨hr, hrs⟩ := List.forall_mem_cons.mp h
    rw [performAll_cons]
    exact (ih _ hrs).trans (hstep s r hr)

theorem engine_performAll_of_ne (s : Session) {name : String} {rs : List Request}
    (h : ∀ r ∈ rs, r.target? ≠ some (.engine name)) :
    (s.performAll rs).1.engine name = s.engine name :=
  performAll_invariant (engine · name) (fun _ _ ↦ engine_perform_of_ne) s h

theorem compiled_performAll_of_ne (s : Session) {name : String} {rs : List Request}
    (h : ∀ r ∈ rs, r.target? ≠ some (.compiled name)) :
    (s.performAll rs).1.compiled.get? name = s.compiled.get? name :=
  performAll_invariant (·.compiled.get? name) (fun _ _ ↦ compiled_perform_of_ne) s h

theorem performAll_of_target?_eq_none (s : Session) {rs : List Request}
    (h : ∀ r ∈ rs, r.target? = none) : (s.performAll rs).1 = s :=
  performAll_invariant id (fun _ _ ↦ perform_of_target?_eq_none) s h

/-- **History does not matter beyond what was written last.** In every run from an empty session,
each evaluation is answered as by a fresh engine that holds, under every name, just what was written
last, or for a compiled formula by one with nothing but its options. Such engines exist. Only
requests with a target change it, and requests that change nothing can be inserted or left out
without another answer changing. -/
theorem performAll_afresh :
    (∀ (before : List Request) (r : Request) (after : List Request), ∃ answer,
      (performAll {} (before ++ r :: after)).2[before.length]? = some answer ∧
      r.IsAnsweredAfresh before.reverse answer) ∧
    (∀ (earlier : List Request) (name : String), ∃ e : Engine, e.Holds earlier name) ∧
    (∀ (s : Session) (name : String) (rs : List Request),
      ((∀ r ∈ rs, r.target? ≠ some (.engine name)) →
        (s.performAll rs).1.engine name = s.engine name) ∧
      ((∀ r ∈ rs, r.target? ≠ some (.compiled name)) →
        (s.performAll rs).1.compiled.get? name = s.compiled.get? name)) ∧
    ∀ (s : Session) (before middle after : List Request), (∀ r ∈ middle, r.target? = none) →
      ∃ first inserted last, first.length = before.length ∧ inserted.length = middle.length ∧
        (s.performAll (before ++ middle ++ after)).2 = first ++ inserted ++ last ∧
        (s.performAll (before ++ after)).2 = first ++ last := by
  refine ⟨fun before r after ↦ ?_, fun earlier name ↦ ?_,
    fun s name rs ↦ ⟨s.engine_performAll_of_ne, s.compiled_performAll_of_ne⟩,
    fun s before middle after h ↦ ?_⟩
  · refine ⟨_, ?_, (recalls_performAll before).isAnsweredAfresh r⟩
    rw [performAll_append, performAll_cons, ← length_performAll {} before]
    simp
  · have h := recalls_performAll earlier.reverse
    rw [List.reverse_reverse] at h
    exact ⟨_, h.engine name⟩
  · have hmiddle := performAll_of_target?_eq_none (s.performAll before).1 h
    refine ⟨(s.performAll before).2, ((s.performAll before).1.performAll middle).2,
      ((s.performAll before).1.performAll after).2, length_performAll s before,
      length_performAll _ middle, ?_, ?_⟩
    · rw [performAll_append, performAll_append, hmiddle]
    · rw [performAll_append]

end Session

end Formula
