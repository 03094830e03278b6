import Formula.Compiled
import Formula.Proofs.Lexing
import Formula.Proofs.Resolving

/-!
# The ways to evaluate a text

A text can be evaluated through an engine, through a rule that keeps the text, in its compiled form,
or without any engine. These ways differ in when the text is cut into tokens, in whose options count
and in how the bindings are put together. What they come to is in each case the evaluation of the
text's tokens, under any table in which variables stand before constants. How such a table was made
cannot be seen, since an evaluation only looks names up (`evaluateTokens_congr`, `Engine.Same`).

The two texts on which the ways could still differ are those without a token. The empty text holds
and is never read. A text of blanks is read, and a value is missing at its end.
-/

namespace Formula

open Formula.Tree Reader

/-! ## Answers for tokens -/

/-- An answer is what an evaluation of tokens comes to, with the text beside the error if it
failed. -/
structure Evaluation.Reports (e : Evaluation) (source : String) (report : Report) : Prop where
  result : e.result = report.result.mapError (FormulaError.mk source)
  calls : e.calls = report.calls

namespace Evaluation

variable {source : String} {tokens : List Token} {bindings bindings' : Table Value}
  {functions functions' : Table Callable} {options : Options}

theorem reports_ofTokens : (ofTokens source tokens bindings functions options).Reports source
    (evaluateTokens tokens bindings functions options) := ⟨rfl, rfl⟩

/-- An answer is a value where the tokens have that value. -/
theorem Reports.result_eq_ok_iff {e : Evaluation} {report : Report} (h : e.Reports source report)
    {v : Value} : e.result = .ok v ↔ report.result = .ok v := by
  rw [h.result]
  cases report.result with
  | ok w =>
    constructor
    · rintro ⟨⟩
      rfl
    · rintro ⟨⟩
      rfl
  | error cause => exact iff_of_false (by rintro ⟨⟩) (by rintro ⟨⟩)

theorem Reports.result_eq_error {e : Evaluation} {report : Report} (h : e.Reports source report)
    {err : FormulaError} (he : e.result = .error err) : report.result = .error err.cause := by
  rw [h.result] at he
  cases hresult : report.result with
  | ok v =>
    rw [hresult] at he
    cases he
  | error cause =>
    rw [hresult] at he
    obtain rfl := Except.error.inj he
    rfl

theorem Reports.of_run_eq {e : Evaluation} {report report' : Report} (h : e.Reports source report)
    (hrun : report'.run = report.run) : e.Reports source report' := by
  have hresult : report'.result = report.result := congrArg Run.result hrun
  exact ⟨hresult ▸ h.result, h.calls.trans (congrArg Run.calls hrun).symm⟩

/-- What an evaluation says of ignored tokens does not depend on how a table was made, either. -/
theorem ofTokens_congr (hbindings : ∀ name, bindings'.get? name = bindings.get? name)
    (hfunctions : ∀ name, functions'.get? name = functions.get? name) :
    ofTokens source tokens bindings' functions' options
      = ofTokens source tokens bindings functions options := by
  have hrun := evaluateTokens_congr tokens options hbindings hfunctions
  have hresult : (evaluateTokens tokens bindings' functions' options).result
      = (evaluateTokens tokens bindings functions options).result := congrArg Run.result hrun
  have hcalls : (evaluateTokens tokens bindings' functions' options).calls
      = (evaluateTokens tokens bindings functions options).calls := congrArg Run.calls hrun
  have hignored : (evaluateTokens tokens bindings' functions' options).ignored?
      = (evaluateTokens tokens bindings functions options).ignored? := by
    unfold Report.ignored?
    rw [hresult]
    split
    · next v hv =>
      rw [unread_eq_of_run_eq hrun fun e he ↦ absurd (hv.symm.trans he) (by simp)]
    · rfl
  rw [ofTokens, ofTokens, hresult, hcalls, hignored]

end Evaluation

/-! ## Engines -/

/-- Two engines have the same under every name, and the same options. -/
structure Engine.Same (e e' : Engine) : Prop where
  constants : ∀ name, e'.constants.get? name = e.constants.get? name
  functions : ∀ name, e'.functions.get? name = e.functions.get? name
  options : e'.options = e.options

/-- **Engines that have the same answer the same.** -/
theorem Engine.Same.evaluate_eq {e e' : Engine} (h : e.Same e') (source : String)
    (bindings : Table Value) : e'.evaluate source bindings = e.evaluate source bindings := by
  have hanswer : Evaluation.ofTokens source (tokenize source) (e'.constants.overlay bindings)
      e'.functions e'.options = Evaluation.ofTokens source (tokenize source)
        (e.constants.overlay bindings) e.functions e.options := by
    rw [h.options]
    refine Evaluation.ofTokens_congr (fun name ↦ ?_) h.functions
    rw [Table.get?_overlay, Table.get?_overlay, h.constants]
  rw [evaluate, rule, Rule.evaluate, hanswer]
  rfl

section Routes

variable {source : String}

theorem Engine.reports_evaluate (h : source ≠ "") (e : Engine) (given : Table Value) :
    (e.evaluate source given).Reports source
      (evaluateTokens (tokenize source) (e.constants.overlay given) e.functions e.options) := by
  have hempty : ¬source.isEmpty := by simpa using h
  rw [evaluate, rule, Rule.evaluate, if_neg hempty]
  exact ⟨rfl, rfl⟩

theorem Compiled.reports_evaluate (h : source ≠ "") (options : Options) (given : Table Value) :
    (((compile source).withOptions options).evaluate given).Reports source
      (evaluateTokens (tokenize source) given ∅ options) := by
  have hempty : ¬source.isEmpty := by simpa using h
  rw [evaluate, withOptions, compile, if_neg hempty]
  exact Evaluation.reports_ofTokens

/-! ## Texts without tokens -/

theorem Engine.evaluate_nil (e : Engine) (given : Table Value) :
    e.evaluate "" given = .ofEmpty := rfl

theorem Compiled.evaluate_nil (options : Options) (given : Table Value) :
    ((compile "").withOptions options).evaluate given = .ofEmpty := rfl

/-- A text of blanks has no token but the end marker, and that behind all of them. -/
theorem tokenize_of_blank (h : ∀ c ∈ source.toList, Text.isBlank c) :
    tokenize source = [⟨.endOfInput, source.utf8ByteSize⟩] := by
  have htrimmed : Trimmed source.toList source.toList [] [] :=
    ⟨by simp, h, by simp, by simp, by simp⟩
  obtain ⟨hfront, hmiddle, -⟩ := trimmed_iff.mp htrimmed
  have hoffset : leadingBytes source = source.utf8ByteSize := by
    rw [leadingBytes, ← hfront, String.ofList_toList]
  rw [tokenize, piecesOf, ← hmiddle, hoffset]
  rfl

/-- Where no token is, a value is missing. -/
theorem read_endOfInput (n : Nat) (strict : Bool) {maxDepth : Nat} (h : 1 ≤ maxDepth) :
    Tree.read [⟨.endOfInput, n⟩] strict maxDepth
      = .error ⟨.unexpectedToken .endOfInput n, [], []⟩ := by
  obtain ⟨depth, rfl⟩ : ∃ depth, maxDepth = depth + 1 := ⟨maxDepth - 1, by omega⟩
  cases depth <;> rfl

theorem evaluateTokens_endOfInput (n : Nat) (bindings : Table Value) (functions : Table Callable)
    {options : Options} (h : 1 ≤ options.maxDepth) :
    (evaluateTokens [⟨.endOfInput, n⟩] bindings functions options).result
      = .error (.unexpectedToken .endOfInput n) := by
  have hrun := (agrees_evaluateTokens [⟨.endOfInput, n⟩] bindings functions options).run
  rw [read_endOfInput n options.strict h] at hrun
  exact congrArg Run.result hrun

end Routes

/-- **All ways to evaluate a text agree.** A text that is not empty has the answer of its tokens,
under any table in which the given variables stand before constants, through an engine and through
a rule; where there are neither constants nor functions, also in compiled form, and without an
engine under the default options. The empty text holds, and a text of blanks has no value, in every
way. -/
theorem evaluate_routes (source : String) (constants given : Table Value)
    (functions : Table Callable) (options : Options) :
    let engine : Engine := ⟨constants, functions, options⟩
    let throughEngine := engine.evaluate source given
    let throughRule := (engine.rule source).evaluate given
    let compiled := ((compile source).withOptions options).evaluate given
    let plain := evaluate source given
    (source ≠ "" → ∀ bindings : Table Value,
      (∀ name, bindings.get? name = (given.get? name).or (constants.get? name)) →
      let report := evaluateTokens (tokenize source) bindings functions options
      throughEngine.Reports source report ∧ throughRule.Reports source report ∧
      ((∀ name, constants.get? name = none) → (∀ name, functions.get? name = none) →
        compiled.Reports source report ∧ (options = {} → plain.Reports source report))) ∧
    (source = "" → ∀ answer ∈ [throughEngine, throughRule, compiled, plain],
      answer.result = .ok (.boolean true) ∧ answer.calls = []) ∧
    (source ≠ "" → (∀ c ∈ source.toList, Text.isBlank c) →
      let missing := EvalError.unexpectedToken .endOfInput source.utf8ByteSize
      plain.result = .error ⟨source, missing⟩ ∧
      (1 ≤ options.maxDepth →
        (∀ answer ∈ [throughEngine, throughRule, compiled],
          answer.result = .error ⟨source, missing⟩) ∧
        ∀ bindings, (evaluateTokens (tokenize source) bindings functions options).result
          = .error missing)) := by
  intro engine throughEngine throughRule compiled plain
  refine ⟨fun hsource bindings hbindings ↦ ?_, fun hsource ↦ ?_, fun hsource hblank ↦ ?_⟩
  · intro report
    have hengine : throughEngine.Reports source report := by
      refine (engine.reports_evaluate hsource given).of_run_eq ?_
      refine evaluateTokens_congr _ _ (fun name ↦ ?_) fun _ ↦ rfl
      rw [hbindings, Table.get?_overlay]
    refine ⟨hengine, hengine, fun hconstants hfunctions ↦ ⟨?_, fun hoptions ↦ ?_⟩⟩
    · refine (Compiled.reports_evaluate hsource options given).of_run_eq ?_
      refine evaluateTokens_congr _ _ (fun name ↦ ?_) hfunctions
      rw [hbindings, hconstants, Option.or_none]
    · subst hoptions
      refine (Engine.empty.reports_evaluate hsource given).of_run_eq ?_
      refine evaluateTokens_congr _ _ (fun name ↦ ?_) hfunctions
      rw [hbindings, hconstants, Table.get?_overlay]
      rfl
  · subst hsource
    have hempty : ∀ answer ∈ [throughEngine, throughRule, compiled, plain], answer = .ofEmpty := by
      simp only [List.forall_mem_cons]
      exact ⟨engine.evaluate_nil given, engine.evaluate_nil given,
        Compiled.evaluate_nil options given, Engine.empty.evaluate_nil given, by simp⟩
    intro answer hanswer
    rw [hempty answer hanswer]
    exact ⟨rfl, rfl⟩
  · intro missing
    have hfails : ∀ {answer : Evaluation} {bindings : Table Value} {functions : Table Callable}
        {options : Options}, 1 ≤ options.maxDepth →
        answer.Reports source (evaluateTokens (tokenize source) bindings functions options) →
        answer.result = .error ⟨source, missing⟩ := by
      intro answer bindings functions options hdepth hanswer
      rw [hanswer.result, tokenize_of_blank hblank,
        evaluateTokens_endOfInput source.utf8ByteSize bindings functions hdepth]
      rfl
    have hengine := engine.reports_evaluate hsource given
    have hcompiled := Compiled.reports_evaluate hsource options given
    have hplain := Engine.empty.reports_evaluate hsource given
    refine ⟨hfails (by decide) hplain, fun hdepth ↦ ⟨?_, fun bindings ↦ ?_⟩⟩
    · simp only [List.forall_mem_cons]
      exact ⟨hfails hdepth hengine, hfails hdepth hengine, hfails hdepth hcompiled, by simp⟩
    · rw [tokenize_of_blank hblank]
      exact evaluateTokens_endOfInput source.utf8ByteSize bindings functions hdepth

end Formula
