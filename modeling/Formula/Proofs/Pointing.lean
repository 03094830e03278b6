import Formula.Compiled
import Formula.Proofs.Law
import Formula.Proofs.Offsets
import Formula.Proofs.TwoPhases

/-!
# Where errors point

An error has the offset of one token of the source, and says of this token and of the one behind it
what is wrong (`EvalError.Points`). Tokens stand at places of the source, so the offset of an error
is one as well.

Errors of form are about the token in front of what is unread, and undefined names about the name
that was read. Neither changes while a failure is passed on, so it is a law of reading
(`Formula.Proofs.Law`). Of a tree it says that its evaluation can only be stopped by an error that
points rightly, whether it is in a draft or was read to the end.
-/

namespace Formula

open Formula.Tree Reader

/-- What an error says of the token that it points at and of the one behind it, where `bound` names
have a value and `registered` ones a function. -/
inductive EvalError.Points (bound registered : String → Prop) (options : Options) :
    EvalError → Token → TokenKind → Prop
  | undefinedVariable {name : String} {n : Nat} {next : TokenKind} (hnext : next ≠ .openParen)
    (hname : ¬bound name) :
    Points bound registered options (.undefinedVariable name n) ⟨.identifier name, n⟩ next
  | undefinedFunction {name : String} {n : Nat} (hname : ¬registered name) :
    Points bound registered options (.undefinedFunction name n) ⟨.identifier name, n⟩ .openParen
  | unexpectedToken {t : Token} {next : TokenKind}
    (h : (∃ op, t.kind = .operator op) ∨ t.kind = .closeParen ∨ t.kind = .comma ∨
      t.kind = .endOfInput) :
    Points bound registered options (.unexpectedToken t.kind t.offset) t next
  | depthExceeded {t : Token} {next : TokenKind} :
    Points bound registered options (.depthExceeded options.maxDepth t.offset) t next
  | unclosedParen {t : Token} {next : TokenKind} (hstrict : options.strict)
    (h : t.kind ≠ .closeParen) :
    Points bound registered options (.unclosedParen t.offset) t next
  | trailingTokens {t : Token} {next : TokenKind} (hstrict : options.strict)
    (h : t.kind ≠ .endOfInput) :
    Points bound registered options (.trailingTokens t.kind t.offset) t next

/-- An error points at a token of a list. -/
def EvalError.PointsInto (tokens : List Token) (bound registered : String → Prop)
    (options : Options) (e : EvalError) : Prop :=
  ∃ before t after, tokens = before ++ t :: after ∧
    e.Points bound registered options t (front after)

theorem EvalError.Points.offset_eq {bound registered : String → Prop} {options : Options}
    {e : EvalError} {t : Token} {next : TokenKind} (h : e.Points bound registered options t next) :
    e.offset = t.offset := by
  cases h <;> rfl

/-! ## What can stop an evaluation -/

section Law

variable {ρ : Scope} {P : EvalError → Prop}

/-- The law that trees can only be stopped by certain errors, for the tokens of a list. -/
def stopping (ρ : Scope) (tokens : List Token) (P : EvalError → Prop) : Law where
  tokens _ ts := ts <:+ tokens
  tree t := ∀ skipping, (t.evaluate ρ skipping).StopsAt P
  error := P

variable {tokens : List Token}

theorem stopsAt_enter {fr : Frame} (h : (stopping ρ tokens P).frame fr) (skipping : Bool) :
    (fr.enter ρ skipping).StopsAt P := by
  cases fr with
  | after t => exact (h skipping).bind fun _ ↦ Run.stopsAt_pure _
  | right j left => exact (h skipping).bind fun _ ↦ Run.stopsAt_pure _

/-- What obeys the law in reading is stopped by nothing else in evaluation. -/
theorem stopsAt_outcomeRun {outcome : Except Failure (Part Tree)}
    (h : (stopping ρ tokens P).outcome (stopping ρ tokens P).tree outcome) :
    (outcomeRun ρ outcome).StopsAt P := by
  cases outcome with
  | ok p => exact h false
  | error f =>
    have hdraft := stopsAt_enterAll (fun fr hfr ↦ stopsAt_enter (h.2 fr hfr)) false
    exact hdraft.bind fun _ ↦ Run.stopsAt_fail h.1

end Law

/-! ## Errors point at tokens -/

section Whole

variable {bound registered : String → Prop} {options : Options} {inner : List Token}

/-- What is left begins at a token of the list, and where nothing is left that is the end marker. -/
theorem pointsInto_of_suffix {n : Nat} {e : EvalError} {ts : List Token} (h : ts <:+ inner)
    (hpoints : ∀ t, t.kind = front ts →
      t.offset = Grammar.position ⟨options.strict, options.maxDepth, n⟩ ts →
      e.Points bound registered options t (front ts.tail)) :
    e.PointsInto (inner ++ [⟨.endOfInput, n⟩]) bound registered options := by
  obtain ⟨before, rfl⟩ := h
  cases ts with
  | nil => exact ⟨before, _, [], by rw [List.append_nil], hpoints _ rfl rfl⟩
  | cons t ts =>
    refine ⟨before, t, ts ++ [⟨.endOfInput, n⟩], by simp, ?_⟩
    have hnext : front (ts ++ [⟨.endOfInput, n⟩]) = front ts := by cases ts <;> rfl
    rw [hnext]
    exact hpoints t rfl rfl

theorem cases_of_not_beginsOperand {k : TokenKind} (h : k.beginsOperand = false) :
    (∃ op, k = .operator op) ∨ k = .closeParen ∨ k = .comma ∨ k = .endOfInput := by
  cases k <;> simp_all [TokenKind.beginsOperand]

/-- Whatever can stop an evaluation points at a token. -/
theorem stopping_local (bindings : Table Value) (functions : Table Callable) (options : Options)
    (hinner : Endless inner) (n : Nat) :
    (stopping ⟨bindings, functions, options.shortCircuit⟩ inner
      (EvalError.PointsInto (inner ++ [⟨.endOfInput, n⟩]) (bindings.contains ·)
        (functions.contains ·) options)).Local ⟨options.strict, options.maxDepth, n⟩ where
  suffix h hsuffix := hsuffix.trans h
  opened h _ := (List.tail_suffix _).trans h
  literal v _ := Run.stopsAt_pure v
  named := by
    intro _ ts name h hname hnext
    refine stopsAt_lookUp fun hunbound ↦ pointsInto_of_suffix h fun t hkind hoffset ↦ ?_
    obtain ⟨k, offset⟩ := t
    obtain rfl : k = .identifier name := hkind.trans hname
    obtain rfl : offset = _ := hoffset
    exact .undefinedVariable hnext hunbound
  call := by
    intro _ ts name as h hname hnext has skipping
    rw [Tree.evaluate]
    refine (stopsAt_evaluateAll has skipping).bind (stopsAt_call (fun hunregistered ↦ ?_) skipping)
    refine pointsInto_of_suffix h fun t hkind hoffset ↦ ?_
    obtain ⟨k, offset⟩ := t
    obtain rfl : k = .identifier name := hkind.trans hname
    obtain rfl : offset = _ := hoffset
    rw [hnext]
    exact .undefinedFunction hunregistered
  not := by
    intro t ht skipping
    rw [Tree.evaluate]
    exact (ht skipping).bind fun v ↦ Run.stopsAt_pure _
  joined := by
    intro j left right hleft hright skipping
    rw [Tree.evaluate]
    exact (hleft skipping).bind fun v ↦ (hright _).bind fun w ↦ Run.stopsAt_pure _
  unexpected := by
    intro _ ts h hfront
    refine pointsInto_of_suffix h fun t hkind hoffset ↦ ?_
    rw [← hkind, ← hoffset]
    exact .unexpectedToken (cases_of_not_beginsOperand (hkind ▸ hfront))
  tooDeep := by
    intro ts h
    refine pointsInto_of_suffix h fun t hkind hoffset ↦ ?_
    rw [← hoffset]
    exact .depthExceeded
  unclosed := by
    intro _ ts h hstrict hfront
    refine pointsInto_of_suffix h fun t hkind hoffset ↦ ?_
    rw [← hoffset]
    exact .unclosedParen hstrict (hkind ▸ hfront)
  trailing := by
    intro _ t ts h hstrict
    obtain ⟨before, rfl⟩ := h
    have ht : t.kind ≠ .endOfInput := hinner t (by simp)
    exact ⟨before, t, ts ++ [⟨.endOfInput, n⟩], by simp, .trailingTokens hstrict ht⟩

theorem endOffset_of_endless (hinner : Endless inner) (n : Nat) :
    endOffset (inner ++ [⟨.endOfInput, n⟩]) = n := by
  have hnone : inner.find? (·.kind == .endOfInput) = none :=
    List.find?_eq_none.mpr fun t ht ↦ by simpa using hinner t ht
  simp [endOffset, List.find?_append, hnone]

/-- **An error points at a token**, in any list that one end marker ends. -/
theorem pointsInto_evaluateTokens {tokens : List Token} {n : Nat}
    (htokens : tokens = inner ++ [⟨.endOfInput, n⟩]) (hinner : Endless inner)
    {bindings : Table Value} {functions : Table Callable} {e : EvalError}
    (h : (evaluateTokens tokens bindings functions options).result = .error e) :
    e.PointsInto tokens (bindings.contains ·) (functions.contains ·) options := by
  have hbefore : beforeEnd tokens = inner := by rw [htokens, hinner.beforeEnd_append]
  have hend : endOffset tokens = n := by rw [htokens, endOffset_of_endless hinner]
  have hlocal := stopping_local bindings functions options hinner n
  rw [← htokens, ← hend] at hlocal
  have hread := hlocal.read (by rw [hbefore]; exact List.suffix_refl inner)
  have hagrees := agrees_evaluateTokens tokens bindings functions options
  exact stopsAt_outcomeRun hread e ((congrArg Run.result hagrees.run).symm.trans h)

end Whole

/-! ## Errors point at places -/

/-- An error points at one token of a source, at a place in it where a character begins or where it
ends. -/
def EvalError.PointsAt (source : String) (bound registered : String → Prop) (options : Options)
    (e : EvalError) : Prop :=
  e.offset ≤ source.utf8ByteSize ∧
    ∃ before t after, tokenize source = before ++ t :: after ∧ t.offset = e.offset ∧
      (∀ u ∈ before ++ after, u.offset ≠ e.offset) ∧ t.StandsIn source.toList ∧
      e.Points bound registered options t (front after)

theorem Token.StandsIn.offset_le {source : String} {t : Token} (h : t.StandsIn source.toList) :
    t.offset ≤ source.utf8ByteSize := by
  obtain ⟨front, back, hsource, hoffset, -⟩ := h
  rw [← bytes_toList, hsource, bytes_append, ← hoffset]
  exact Nat.le_add_right _ _

theorem pointsAt_of_pointsInto {source : String} {bound registered : String → Prop}
    {options : Options} {e : EvalError}
    (h : e.PointsInto (tokenize source) bound registered options) :
    e.PointsAt source bound registered options := by
  obtain ⟨before, t, after, htokens, hpoints⟩ := h
  have hstands : t.StandsIn source.toList := stands_tokenize source t (by simp [htokens])
  rw [EvalError.PointsAt, hpoints.offset_eq]
  exact ⟨hstands.offset_le, before, t, after, htokens, rfl, offset_ne_of_tokenize htokens, hstands,
    hpoints⟩

/-- The failure of a text is that of its tokens. -/
theorem pointsAt_of_ofTokens {source : String} {bindings : Table Value}
    {functions : Table Callable} {options : Options} {e : FormulaError}
    (h : (Evaluation.ofTokens source (tokenize source) bindings functions options).result
      = .error e) : e.source = source ∧
      e.cause.PointsAt source (bindings.contains ·) (functions.contains ·) options := by
  obtain ⟨inner, n, htokens, hinner⟩ := (gives_tokenize source).marked
  simp only [Evaluation.ofTokens] at h
  cases hresult : (evaluateTokens (tokenize source) bindings functions options).result with
  | ok v =>
    rw [hresult] at h
    cases h
  | error cause =>
    rw [hresult] at h
    obtain rfl := Except.error.inj h
    exact ⟨rfl, pointsAt_of_pointsInto (pointsInto_evaluateTokens htokens hinner hresult)⟩

theorem Table.contains_overlay {α : Type} (below above : Table α) (name : String) :
    (below.overlay above).contains name ↔ above.contains name ∨ below.contains name := by
  simp [contains]

/-- **Errors point at the right place of the text.** An evaluation that fails names its text and has
an error whose offset is that of one token, at a place of the text. A name that stands for nothing
is written out there; whatever else was refused is the token itself; and the names that have a value
are the variables and the constants, for a compiled text the variables alone. -/
theorem pointsAt_evaluate (engine : Engine) (source : String) (bindings : Table Value)
    (options : Options) :
    (∀ e, (engine.evaluate source bindings).result = .error e → e.source = source ∧
      e.cause.PointsAt source (fun name ↦ bindings.contains name ∨ engine.constants.contains name)
        (fun name ↦ engine.functions.contains name) engine.options) ∧
    ∀ e, (((compile source).withOptions options).evaluate bindings).result = .error e →
      e.source = source ∧
        e.cause.PointsAt source (fun name ↦ bindings.contains name) (fun _ ↦ False) options := by
  by_cases hempty : source.isEmpty
  · -- the empty text holds
    have hrule : (engine.evaluate source bindings).result = .ok (.boolean true) := by
      rw [Engine.evaluate, Engine.rule, Rule.evaluate, if_pos hempty]
      rfl
    have hcompiled : (((compile source).withOptions options).evaluate bindings).result
        = .ok (.boolean true) := by
      rw [Compiled.evaluate, Compiled.withOptions, compile, if_pos hempty]
      rfl
    rw [hrule, hcompiled]
    exact ⟨fun e h ↦ absurd h (by simp), fun e h ↦ absurd h (by simp)⟩
  · constructor
    · intro e h
      rw [Engine.evaluate, Engine.rule, Rule.evaluate, if_neg hempty] at h
      have hpoints := pointsAt_of_ofTokens h
      simpa only [Table.contains_overlay] using hpoints
    · intro e h
      rw [Compiled.evaluate, Compiled.withOptions, compile, if_neg hempty] at h
      have hpoints := pointsAt_of_ofTokens h
      have hnone : ∀ name, (∅ : Table Callable).contains name = false := fun _ ↦ rfl
      simpa only [hnone, Bool.false_eq_true] using hpoints

/-- A name behind a letter of two bytes. -/
theorem pointsAt_evaluate_behind_accent :
    (Engine.empty.evaluate "'é' + x" ∅).result
        = .error ⟨"'é' + x", .undefinedVariable "x" 7⟩ ∧
      (EvalError.undefinedVariable "x" 7).PointsAt "'é' + x"
        (fun name ↦ (∅ : Table Value).contains name ∨ Engine.empty.constants.contains name)
        (fun name ↦ Engine.empty.functions.contains name) Engine.empty.options := by
  have hresult : (Engine.empty.evaluate "'é' + x" ∅).result
      = .error ⟨"'é' + x", .undefinedVariable "x" 7⟩ := by rfl
  exact ⟨hresult, ((pointsAt_evaluate Engine.empty "'é' + x" ∅ {}).1 _ hresult).2⟩

end Formula
