import Formula.Proofs.Displacing
import Formula.Proofs.Strictness

/-!
# The end marker

An evaluation drops the first end marker and all that is behind it before it begins. It could leave
them where they are as well (`evaluateInPlace`): whatever looks at the token in front takes a marker
for the end of the list, nothing reads a marker, and an error at the end is reported where the
marker stands. The two come to the same.

So a list has one form that says all there is to it: its tokens in front of the first marker, and
one marker. A list without a marker stands for the one that has a marker at the offset of its last
token.
-/

namespace Formula

open Formula.Tree Reader

/-! ## Evaluating in place -/

/-- An end is in front, of the list or a marker, unless leftovers are ignored. -/
def Step.finishing (σ : Setting) : Step Unit := fun s ↦
  match front s.rest with
  | .endOfInput => .ok () s
  | k =>
    if σ.options.strict then .error (.trailingTokens k (σ.grammar.position s.rest)) s else .ok () s

/-- Evaluates tokens among which markers may stand, and drops none of them. The offset of the last
token counts where all of them have been read; what is left over is what a marker does not hide. -/
def evaluateInPlace (tokens : List Token) (bindings : Table Value) (functions : Table Callable)
    (options : Options) : Report :=
  let σ : Setting := ⟨bindings, functions, options, (tokens.getLast?.map Token.offset).getD 0⟩
  match (do
    let v ← Step.expression σ (budgetFor tokens)
    Step.finishing σ
    return v : Step Value) { rest := tokens } with
  | .ok v s => ⟨.ok v, s.calls, beforeEnd s.rest⟩
  | .error e s => ⟨.error e, s.calls, beforeEnd s.rest⟩

theorem Matches.finishing {ρ : Scope} {skipping : Bool} (σ : Setting) (s : Progress) :
    Matches ρ (fun _ _ ↦ (pure () : Run Unit)) skipping s (σ.grammar.finishing s.rest)
      (Step.finishing σ s) := by
  have hleftover : ∀ k : TokenKind, Matches ρ (fun _ _ ↦ (pure () : Run Unit)) skipping s
      (if σ.grammar.strict then
        .error ⟨.trailingTokens k (σ.grammar.position s.rest), [], s.rest⟩
      else .ok ⟨(), s.rest, 0⟩)
      (if σ.options.strict then .error (.trailingTokens k (σ.grammar.position s.rest)) s
      else .ok () s) := by
    intro k
    by_cases hstrict : σ.options.strict = true
    · rw [if_pos (show σ.grammar.strict = true from hstrict), if_pos hstrict]
      exact .of_error s _
    · rw [if_neg (show ¬σ.grammar.strict = true from hstrict), if_neg hstrict]
      exact .of_unit s s.rest 0
  unfold Grammar.finishing Step.finishing
  cases front s.rest
  case endOfInput => exact .of_unit s s.rest 0
  all_goals exact hleftover _

section InPlace

variable (tokens : List Token) (bindings : Table Value) (functions : Table Callable)
  (options : Options)

/-- In place, too, an evaluation is what its two phases come to. -/
theorem evaluateInPlace_phases :
    let report := evaluateInPlace tokens bindings functions options
    let outcome := Grammar.whole
      ⟨options.strict, options.maxDepth, (tokens.getLast?.map Token.offset).getD 0⟩ tokens
    report.run = outcomeRun ⟨bindings, functions, options.shortCircuit⟩ outcome ∧
      ∀ v, report.result = .ok v → ∃ p, outcome = .ok p ∧ report.unread = beforeEnd p.rest := by
  intro report outcome
  let σ : Setting := ⟨bindings, functions, options, (tokens.getLast?.map Token.offset).getD 0⟩
  have hmatches := matches_whole tokens σ (Matches.finishing σ)
  simp only [report, evaluateInPlace]
  split
  · next v s hstep =>
    rw [hstep] at hmatches
    obtain ⟨p, calls, hread, hvalue, rfl⟩ := hmatches.eq_ok
    refine ⟨?_, fun _ _ ↦ ⟨p, hread, rfl⟩⟩
    have houtcome : outcome = .ok p := hread
    rw [houtcome, outcomeRun]
    exact hvalue.symm
  · next e s hstep =>
    rw [hstep] at hmatches
    obtain ⟨calls, hmeaning, hcalls, -⟩ := hmatches
    refine ⟨?_, fun v hv ↦ absurd hv (by simp)⟩
    rw [outcomeRun_eq, Report.run, hcalls]
    exact (congrArg (· >>= fun b ↦ pure b.1) hmeaning).symm

end InPlace

/-! ## Tokens behind a marker -/

theorem beforeEnd_marker {t : Token} (ts : List Token) (h : t.kind = .endOfInput) :
    beforeEnd (t :: ts) = [] :=
  List.takeWhile_cons_of_neg (by simpa using h)

theorem beforeEnd_of_front {ts : List Token} (h : front ts = .endOfInput) : beforeEnd ts = [] := by
  cases ts with
  | nil => rfl
  | cons t ts => exact beforeEnd_marker ts h

theorem beforeEnd_cons {t : Token} (ts : List Token) (h : t.kind ≠ .endOfInput) :
    beforeEnd (t :: ts) = t :: beforeEnd ts :=
  List.takeWhile_cons_of_pos (by simpa using h)

/-- Tokens of which none is a marker are not behind one. -/
theorem Tree.Endless.beforeEnd_append_list {ts : List Token} (h : Endless ts) (us : List Token) :
    beforeEnd (ts ++ us) = ts ++ beforeEnd us :=
  List.takeWhile_append_of_pos fun t ht ↦ bne_iff_ne.mpr (h t ht)

theorem Tree.Endless.beforeEnd_append_front {ts us : List Token} (h : Endless ts)
    (hus : front us = .endOfInput) : beforeEnd (ts ++ us) = ts := by
  rw [h.beforeEnd_append_list, beforeEnd_of_front hus, List.append_nil]

theorem beforeEnd_of_endless {ts : List Token} (h : Endless ts) : beforeEnd ts = ts := by
  have happend : beforeEnd (ts ++ []) = ts := h.beforeEnd_append_front rfl
  rwa [List.append_nil] at happend

/-- Up to its first marker, a list is like one from which the marker was dropped. -/
theorem alike_beforeEnd {g g' : Grammar} (tokens : List Token)
    (h : g'.endOffset
      = ((tokens.find? (·.kind == .endOfInput)).map Token.offset).getD g.endOffset) :
    Alike g g' id tokens (beforeEnd tokens) := by
  induction tokens with
  | nil => exact .ended rfl rfl h
  | cons t ts ih =>
    by_cases ht : t.kind = .endOfInput
    · rw [beforeEnd_marker ts ht]
      rw [List.find?_cons_of_pos (by simp [ht])] at h
      exact .ended ht rfl h
    · rw [beforeEnd_cons ts ht]
      rw [List.find?_cons_of_neg (by simp [ht])] at h
      exact .token t (ih h)

theorem endOffset_eq (tokens : List Token) :
    endOffset tokens = ((tokens.find? (·.kind == .endOfInput)).map Token.offset).getD
      ((tokens.getLast?.map Token.offset).getD 0) := by
  rw [endOffset]
  cases tokens.find? (·.kind == .endOfInput) <;> rfl

/-- Lists that are alike have the same tokens in front of their markers. -/
theorem Alike.beforeEnd_eq {g g' : Grammar} {f : Nat → Nat} {ts ts' : List Token}
    (h : Alike g g' f ts ts') : beforeEnd ts' = (beforeEnd ts).map (Token.moved f) := by
  induction h with
  | ended h h' => rw [beforeEnd_of_front h, beforeEnd_of_front h', List.map_nil]
  | token t h ih =>
    by_cases ht : t.kind = .endOfInput
    · rw [beforeEnd_marker _ ht, beforeEnd_marker (t := t.moved f) _ ht, List.map_nil]
    · rw [beforeEnd_cons _ ht, beforeEnd_cons (t := t.moved f) _ ht, List.map_cons, ih]

theorem EvalError.moved_id (e : EvalError) : e.moved id = e := by
  cases e <;> rfl

theorem Run.moved_id {α : Type} (r : Run α) : r.moved id = r := by
  obtain ⟨e | a, calls⟩ := r
  · exact congrArg (fun e ↦ Run.mk (.error e) calls) e.moved_id
  · rfl

/-- A tree is read from a whole list if an expression is, and strictly if nothing is left. -/
theorem Tree.read_eq_ok_iff {tokens : List Token} {strict : Bool} {maxDepth : Nat} {p : Part Tree} :
    Tree.read tokens strict maxDepth = .ok p ↔
      Grammar.expression ⟨strict, maxDepth, endOffset tokens⟩ maxDepth (beforeEnd tokens) = .ok p ∧
        (strict → p.rest = []) := by
  rw [Tree.read, bind_apply]
  cases Grammar.expression ⟨strict, maxDepth, endOffset tokens⟩ maxDepth (beforeEnd tokens) with
  | error f => simp
  | ok q =>
    have hclosed : ∀ t rest missing, andThen (.ok ⟨t, rest, missing⟩) (fun t ↦ do
        within [.after t] (Grammar.ending ⟨strict, maxDepth, endOffset tokens⟩)
        return t) = .ok p ↔ (⟨t, rest, missing⟩ : Part Tree) = p ∧ (strict → rest = []) := by
      intro t rest missing
      cases rest with
      | nil => exact ⟨fun h ↦ ⟨Except.ok.inj h, fun _ ↦ rfl⟩, fun h ↦ congrArg _ h.1⟩
      | cons u us =>
        cases strict with
        | false => exact ⟨fun h ↦ ⟨Except.ok.inj h, by simp⟩, fun h ↦ congrArg _ h.1⟩
        | true =>
          constructor
          · intro h
            cases h
          · rintro ⟨-, hrest⟩
            exact absurd (hrest rfl) (by simp)
    rw [hclosed q.value q.rest q.missing, Except.ok.injEq]
    refine and_congr_right fun h ↦ ?_
    rw [← h]

/-- What is left behind a tree are tokens in front of the first marker. -/
theorem Tree.suffix_of_read {tokens : List Token} {strict : Bool} {maxDepth : Nat} {p : Part Tree}
    (h : Tree.read tokens strict maxDepth = .ok p) : p.rest <:+ beforeEnd tokens :=
  (Grammar.advances_expression _ _).keeps _ p (Tree.read_eq_ok_iff.mp h).1

/-- **Markers can stay where they are.** -/
theorem evaluateInPlace_eq (tokens : List Token) (bindings : Table Value)
    (functions : Table Callable) (options : Options) :
    let report := evaluateInPlace tokens bindings functions options
    let report' := evaluateTokens tokens bindings functions options
    report'.run = report.run ∧ report'.ignored? = report.ignored? := by
  intro report report'
  have hagrees := agrees_evaluateTokens tokens bindings functions options
  obtain ⟨hrun, hunread⟩ := evaluateInPlace_phases tokens bindings functions options
  let g : Grammar :=
    ⟨options.strict, options.maxDepth, (tokens.getLast?.map Token.offset).getD 0⟩
  let g' : Grammar := ⟨options.strict, options.maxDepth, endOffset tokens⟩
  have hstrict : g'.strict = g.strict := rfl
  have hlimit : g'.maxDepth = g.maxDepth := rfl
  have halike := Grammar.echoes_whole (f := id) hstrict hlimit tokens (beforeEnd tokens)
    (alike_beforeEnd tokens (endOffset_eq tokens))
  rw [← Tree.read_eq_whole] at halike
  have hruns : report'.run = report.run := by
    rw [hagrees.run, halike.outcomeRun_eq, Run.moved_id, ← hrun]
  refine ⟨hruns, ?_⟩
  have hresult : report'.result = report.result := congrArg Run.result hruns
  cases hvalue : report.result with
  | error e =>
    rw [Report.ignored?_of_error hvalue, Report.ignored?_of_error (hresult.trans hvalue)]
  | ok v =>
    rw [Report.ignored?_of_ok hvalue, Report.ignored?_of_ok (hresult.trans hvalue)]
    obtain ⟨p, hp, hrest⟩ := hunread v hvalue
    obtain ⟨p', hp', hrest'⟩ := hagrees.unread_of_ok v (hresult.trans hvalue)
    rw [hp, hp'] at halike
    have hsuffix := Tree.suffix_of_read hp'
    cases halike with
    | read t n halike =>
      have hendless := beforeEnd_of_endless fun u hu ↦
        endless_beforeEnd tokens u (hsuffix.subset hu)
      rw [hrest, hrest', ← hendless, halike.beforeEnd_eq]
      exact congrArg List.head? (List.map_id _)

/-! ## One form for all lists -/

/-- What is behind a marker does not count, also if there is a marker in front of that one. -/
theorem beforeEnd_append_marker (ts us : List Token) {t : Token} (ht : t.kind = .endOfInput) :
    beforeEnd (ts ++ t :: us) = beforeEnd ts := by
  induction ts with
  | nil => rw [List.nil_append, beforeEnd_marker us ht, beforeEnd_of_front rfl]
  | cons u ts ih =>
    by_cases hu : u.kind = .endOfInput
    · rw [List.cons_append, beforeEnd_marker _ hu, beforeEnd_marker ts hu]
    · rw [List.cons_append, beforeEnd_cons _ hu, beforeEnd_cons ts hu, ih]

theorem endOffset_append_marker (ts us : List Token) {t : Token} (ht : t.kind = .endOfInput) :
    endOffset (ts ++ t :: us)
      = ((ts.find? (·.kind == .endOfInput)).map Token.offset).getD t.offset := by
  rw [endOffset, List.find?_append, List.find?_cons_of_pos (by simp [ht])]
  cases ts.find? (·.kind == .endOfInput) <;> rfl

section Form

variable (bindings : Table Value) (functions : Table Callable) (options : Options)

/-- Of a list, nothing but the tokens in front of its end and the offset of its end count. -/
theorem evaluateTokens_of_form {ts us : List Token} (hbefore : beforeEnd ts = beforeEnd us)
    (hend : endOffset ts = endOffset us) : evaluateTokens ts bindings functions options
      = evaluateTokens us bindings functions options := by
  rw [evaluateTokens, evaluateTokens, hbefore, hend]

/-- **Every list of tokens is evaluated like its one form.** What is behind an end marker does not
count, a list without a marker is evaluated like the one that has a marker at the offset of its last
token, and that the marker is dropped and not met in front makes no difference. -/
theorem evaluateTokens_endMarker :
    (∀ (tokens later : List Token) (n : Nat),
      evaluateTokens (tokens ++ ⟨.endOfInput, n⟩ :: later) bindings functions options
        = evaluateTokens (tokens ++ [⟨.endOfInput, n⟩]) bindings functions options) ∧
    (∀ tokens : List Token, Endless tokens →
      evaluateTokens tokens bindings functions options
        = evaluateTokens (tokens ++ [⟨.endOfInput, (tokens.getLast?.map Token.offset).getD 0⟩])
          bindings functions options) ∧
    ∀ tokens : List Token,
      let report := evaluateTokens tokens bindings functions options
      let report' := evaluateInPlace tokens bindings functions options
      report.result = report'.result ∧ report.calls = report'.calls ∧
        report.ignored? = report'.ignored? := by
  refine ⟨fun tokens later n ↦ ?_, fun tokens hendless ↦ ?_, fun tokens ↦ ?_⟩
  · refine evaluateTokens_of_form bindings functions options ?_ ?_
    · rw [beforeEnd_append_marker tokens later rfl, beforeEnd_append_marker tokens [] rfl]
    · rw [endOffset_append_marker tokens later rfl, endOffset_append_marker tokens [] rfl]
  · have hnone : tokens.find? (·.kind == .endOfInput) = none :=
      List.find?_eq_none.mpr fun t ht ↦ by simpa using hendless t ht
    refine evaluateTokens_of_form bindings functions options ?_ ?_
    · rw [beforeEnd_append_marker tokens [] rfl]
    · rw [endOffset_append_marker tokens [] rfl, endOffset_eq, hnone, Option.map_none,
        Option.getD_none]
  · obtain ⟨hrun, hignored⟩ := evaluateInPlace_eq tokens bindings functions options
    exact ⟨congrArg Run.result hrun, congrArg Run.calls hrun, hignored⟩

/-- A call with a group in it, where the list ends in front of a bracket and has no marker. -/
theorem evaluateTokens_endMarker_missing :
    let tokens : List Token := [⟨.identifier "f", 0⟩, ⟨.openParen, 1⟩, ⟨.openParen, 2⟩,
      ⟨.boolean true, 3⟩, ⟨.closeParen, 7⟩, ⟨.comma, 8⟩, ⟨.text "a", 10⟩]
    let functions : Table Callable := Table.ofList [("f", .host fun vs ↦ .boolean vs.isEmpty)]
    Endless tokens ∧
      evaluateTokens tokens ∅ functions {}
        = evaluateTokens (tokens ++ [⟨.endOfInput, 10⟩]) ∅ functions {} ∧
      (evaluateTokens tokens ∅ functions {}).calls = [⟨"f", [.boolean true, .text "a"]⟩] := by
  intro tokens functions
  have hendless : Endless tokens := by simp [Endless, tokens]
  exact ⟨hendless, (evaluateTokens_endMarker ∅ functions {}).2.1 tokens hendless, by rfl⟩

end Form

end Formula
