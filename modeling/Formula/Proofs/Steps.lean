import Formula.Proofs.Reading

/-!
# The steps of an evaluation

What the steps of `Formula.Evaluation` do to a state, one equation for each. The levels of the
grammar are made of these and call each other; with the equations at hand none of them has to be
opened again.

## Rounds

Four loops and the one optional operand of a comparison are the same thing at different levels: look
for a joint of the level, read it, take the right operand, go on (`Step.round`). What differs is
whether the right operand can be passed over, which only the joint and the left value decide.
-/

namespace Formula

open Reader

variable {α β : Type}

namespace Step

theorem bind_of_ok {x : Step α} {f : α → Step β} {s s' : Progress} {a : α}
    (h : x s = .ok a s') : (x >>= f) s = f a s' := by
  simp only [bind, EStateM.bind, h]

theorem bind_of_error {x : Step α} {f : α → Step β} {s s' : Progress} {e : EvalError}
    (h : x s = .error e s') : (x >>= f) s = .error e s' := by
  simp only [bind, EStateM.bind, h]

theorem bind_congr {x y : Step α} {f : α → Step β} {s : Progress} (h : x s = y s) :
    (x >>= f) s = (y >>= f) s := by
  simp only [bind, EStateM.bind, h]

theorem peek_bind (f : TokenKind → Step β) (s : Progress) :
    (peek >>= f) s = f (front s.rest) s := by
  obtain ⟨ts, depth, skipping, calls⟩ := s
  cases ts <;> rfl

theorem get_bind (f : Progress → Step β) (s : Progress) :
    ((get : Step Progress) >>= f) s = f s s := rfl

theorem advance_bind (f : Unit → Step β) (s : Progress) :
    (advance >>= f) s = f () { s with rest := s.rest.tail } := rfl

end Step

namespace Setting

/-- What names stand for under a setting. -/
def scope (σ : Setting) : Scope := ⟨σ.bindings, σ.functions, σ.options.shortCircuit⟩

/-- What reading depends on under a setting. -/
def grammar (σ : Setting) : Grammar := ⟨σ.options.strict, σ.options.maxDepth, σ.endOffset⟩

/-- How many more levels may be opened. -/
def remaining (σ : Setting) (s : Progress) : Nat := σ.options.maxDepth - s.depth

end Setting

namespace Step

theorem position_bind (σ : Setting) (f : Nat → Step β) (s : Progress) :
    (position σ >>= f) s = f (σ.grammar.position s.rest) s := by
  obtain ⟨ts, depth, skipping, calls⟩ := s
  cases ts <;> rfl

theorem refuse_apply (σ : Setting) (s : Progress) : (refuse σ : Step α) s
    = .error (.unexpectedToken (front s.rest) (σ.grammar.position s.rest)) s := by
  rw [refuse, peek_bind, position_bind]
  rfl

theorem nested_of_le (σ : Setting) (x : Step α) {s : Progress} (h : σ.options.maxDepth ≤ s.depth) :
    nested σ x s = .error (.depthExceeded σ.options.maxDepth (σ.grammar.position s.rest)) s := by
  rw [nested, get_bind, if_pos h]
  obtain ⟨_ | ⟨t, ts⟩, depth, skipping, calls⟩ := s <;> rfl

theorem nested_of_lt (σ : Setting) (x : Step α) {s : Progress} (h : s.depth < σ.options.maxDepth) :
    nested σ x s = (do
      let a ← x
      modify fun s ↦ { s with depth := s.depth - 1 }
      return a : Step α) { s with depth := s.depth + 1 } := by
  rw [nested, get_bind, if_neg (Nat.not_le.mpr h)]
  rfl

theorem skippingIf_apply (b : Bool) (x : Step α) (s : Progress) : skippingIf b x s = (do
      let a ← x
      modify fun s' ↦ { s' with skipping := s.skipping }
      return a : Step α) { s with skipping := s.skipping || b } := rfl

theorem closeParen_apply (σ : Setting) (s : Progress) : closeParen σ s =
    match front s.rest with
    | .closeParen => .ok () { s with rest := s.rest.tail }
    | _ => if σ.options.strict then .error (.unclosedParen (σ.grammar.position s.rest)) s
      else .ok () s := by
  rw [closeParen, peek_bind]
  cases front s.rest
  case closeParen => rfl
  all_goals
    by_cases h : σ.options.strict = true
    · simp only [h, if_true]
      rw [position_bind]
      rfl
    · simp only [h]
      rfl

/-- Nothing is left behind an expression, unless leftovers are ignored. -/
def ending (σ : Setting) : Step Unit := fun s ↦
  match s.rest with
  | [] => .ok () s
  | t :: _ => if σ.options.strict then .error (.trailingTokens t.kind t.offset) s else .ok () s

/-- Reads a comma if there is one. -/
def comma : Step Unit := modify fun s ↦ { s with rest := afterComma s.rest }

theorem comma_bind (f : Unit → Step β) (s : Progress) :
    (comma >>= f) s = f () { s with rest := afterComma s.rest } := rfl

/-- Where the arguments end, there are none. -/
theorem arguments_end (σ : Setting) (n : Nat) {s : Progress} (h : endsArguments (front s.rest)) :
    arguments σ (n + 1) s = .ok [] s := by
  rw [arguments, peek_bind]
  cases hfront : front s.rest
  case closeParen => rfl
  case endOfInput => rfl
  all_goals
    rw [hfront] at h
    exact absurd h (by simp [endsArguments])

/-- Elsewhere there is one, perhaps with a comma behind it, and then the others. -/
theorem arguments_more (σ : Setting) (n : Nat) {s : Progress}
    (h : ¬endsArguments (front s.rest)) : arguments σ (n + 1) s = (do
      let v ← expression σ n
      comma
      let vs ← arguments σ n
      return v :: vs : Step (List Value)) s := by
  rw [arguments, peek_bind]
  cases hfront : front s.rest
  case closeParen => exact absurd (by rw [hfront]; rfl) h
  case endOfInput => exact absurd (by rw [hfront]; rfl) h
  all_goals
    -- the two differ only in how the comma is passed
    refine congrFun (congrArg (expression σ n >>= ·) ?_) s
    funext v s'
    rw [peek_bind, comma_bind, afterComma]
    cases front s'.rest <;> rfl

/-- A run as a step that reads nothing. -/
def ofRun (r : Run β) : Step β := fun s ↦
  match r.result with
  | .ok b => .ok b { s with calls := s.calls ++ r.calls }
  | .error e => .error e { s with calls := s.calls ++ r.calls }

theorem ofRun_pure (b : β) (s : Progress) : ofRun (pure b) s = .ok b s := by
  rw [ofRun, Run.pure_eq, List.append_nil]

theorem ofRun_fail (e : EvalError) (s : Progress) :
    (ofRun (.fail e) : Step β) s = .error e s := by
  rw [ofRun, Run.fail, List.append_nil]

theorem lookUp_apply (σ : Setting) (name : String) (offset : Nat) (s : Progress) :
    lookUp σ name offset s = ofRun (σ.scope.lookUp s.skipping name offset) s := by
  obtain ⟨ts, depth, skipping, calls⟩ := s
  rw [lookUp, get_bind]
  cases skipping
  · simp only [Scope.lookUp, Setting.scope]
    cases σ.bindings.get? name with
    | none => exact (ofRun_fail _ _).symm
    | some v => exact (ofRun_pure v _).symm
  · exact (ofRun_pure _ _).symm

theorem call_apply (σ : Setting) (name : String) (vs : List Value) (offset : Nat) (s : Progress) :
    call σ name vs offset s = ofRun (σ.scope.call s.skipping name vs offset) s := by
  obtain ⟨ts, depth, skipping, calls⟩ := s
  rw [call, get_bind]
  cases skipping
  · simp only [Scope.call, Setting.scope]
    cases σ.functions.get? name with
    | none => exact (ofRun_fail _ _).symm
    | some f =>
      cases hf : f.isHost with
      | false =>
        simp only [hf]
        exact (ofRun_pure (f.apply vs) _).symm
      | true =>
        simp only [hf]
        rfl
  · exact (ofRun_pure _ _).symm

end Step

/-! ## Rounds -/

namespace Step

/-- A joint of a level with its right operand, if there is one. -/
def round (l : Level) (operand : Joint → Value → Step Value) (again : Value → Step Value)
    (v : Value) : Step Value := do
  match Joint.atLevel? l (← peek) with
  | some j =>
    advance
    let w ← operand j v
    again (j.apply v w)
  | none => return v

theorem round_joint {l : Level} {operand : Joint → Value → Step Value} {again : Value → Step Value}
    {v : Value} {s : Progress} {j : Joint} (h : Joint.atLevel? l (front s.rest) = some j) :
    round l operand again v s
      = (operand j v >>= fun w ↦ again (j.apply v w)) { s with rest := s.rest.tail } := by
  rw [round, peek_bind, h]
  rfl

theorem round_end {l : Level} {operand : Joint → Value → Step Value} {again : Value → Step Value}
    {v : Value} {s : Progress} (h : Joint.atLevel? l (front s.rest) = none) :
    round l operand again v s = .ok v s := by
  rw [round, peek_bind, h]
  rfl

/-! The loops of the evaluation and its comparison are rounds. -/

theorem conditionsFrom_succ (σ : Setting) (n : Nat) : conditionsFrom σ (n + 1)
    = round .disjunction (fun j v ↦
        skippingIf (σ.options.shortCircuit && j.isDecidedBy v) (condition σ n))
      (conditionsFrom σ n) := by
  funext v s
  rw [conditionsFrom, round, peek_bind, peek_bind, Joint.atLevel?]
  by_cases h : (front s.rest).isKeyword "or" = true
  · simp only [h, if_true]
    rfl
  · simp only [h]
    rfl

theorem termsFrom_succ (σ : Setting) (n : Nat) : termsFrom σ (n + 1)
    = round .conjunction (fun j v ↦
        skippingIf (σ.options.shortCircuit && j.isDecidedBy v) (term σ n))
      (termsFrom σ n) := by
  funext v s
  rw [termsFrom, round, peek_bind, peek_bind, Joint.atLevel?]
  by_cases h : (front s.rest).isKeyword "and" = true
  · simp only [h, if_true, Joint.apply, Joint.isDecidedBy, Bool.not_not]
  · simp only [h]
    rfl

theorem comparison_succ (σ : Setting) (n : Nat) : comparison σ (n + 1) = (do
    let v ← sum σ n
    round .comparison (fun _ _ ↦ sum σ n) pure v) := by
  rw [comparison]
  congr 1
  funext v s
  rw [round, peek_bind, peek_bind, Joint.atLevel?]
  cases (front s.rest).comparison? <;> rfl

theorem productsFrom_succ (σ : Setting) (n : Nat) : productsFrom σ (n + 1)
    = round .sum (fun _ _ ↦ product σ n) (productsFrom σ n) := by
  funext v s
  rw [productsFrom, round, peek_bind, peek_bind, Joint.atLevel?]
  cases (front s.rest).arithmetic?.filter (·.isAdditive) <;> rfl

theorem operandsFrom_succ (σ : Setting) (n : Nat) : operandsFrom σ (n + 1)
    = round .product (fun _ _ ↦ operand σ n) (operandsFrom σ n) := by
  funext v s
  rw [operandsFrom, round, peek_bind, peek_bind, Joint.atLevel?]
  cases (front s.rest).arithmetic?.filter (!·.isAdditive) <;> rfl

end Step

/-- A whole list of tokens is an expression and its ending. -/
theorem evaluateTokens_eq (tokens : List Token) (bindings : Table Value)
    (functions : Table Callable) (options : Options) :
    evaluateTokens tokens bindings functions options =
      let σ : Setting := ⟨bindings, functions, options, endOffset tokens⟩
      match (do
        let v ← Step.expression σ (budgetFor (beforeEnd tokens))
        Step.ending σ
        return v : Step Value) { rest := beforeEnd tokens } with
      | .ok v s => ⟨.ok v, s.calls, s.rest⟩
      | .error e s => ⟨.error e, s.calls, s.rest⟩ := by
  rw [evaluateTokens]
  simp only
  cases hres : Step.expression ⟨bindings, functions, options, endOffset tokens⟩
      (budgetFor (beforeEnd tokens)) { rest := beforeEnd tokens } with
  | error e s => rw [Step.bind_of_error hres]
  | ok v s =>
    rw [Step.bind_of_ok hres]
    obtain ⟨_ | ⟨t, ts⟩, depth, skipping, calls⟩ := s
    · rfl
    · by_cases hstrict : options.strict = true <;>
        simp [bind, EStateM.bind, Step.ending, hstrict, pure, EStateM.pure]

end Formula
