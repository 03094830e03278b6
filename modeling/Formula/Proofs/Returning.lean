import Formula.Proofs.Consuming
import Formula.Proofs.Machine

/-!
# The machine comes back

A level of `Formula.Evaluation` answers with a value or an error. The machine that enters the level
comes back to where it entered it, with the same frames on the stack, at the same depth and passing
over or not as before, and it brings the same value or the same error, the same calls, and a cursor
that has the same tokens in front (`Returns`).

## The induction

It is on the budget of the evaluation, over all levels together (`Driven`), as in
`Formula.Proofs.TwoPhases` and with the same numbers. That a level which answers with a value has
read a token is what pays for the next round of a loop (`Consuming`).

A level that calls another one has pushed a frame. `Returns.bind` is the step from the call to what
the level does behind it, and asks what the frame does with a value and what it does in the wake of
an error.
-/

namespace Formula

open Reader

namespace Machine

variable {σ : Setting} {tokens : List Token}

/-- From one state to another in some number of steps. -/
def Reaches (σ : Setting) (tokens : List Token) (m m' : State) : Prop :=
  ∃ k, Steps σ tokens k m m'

namespace Reaches

variable {m m' m'' : State}

theorem refl (m : State) : Reaches σ tokens m m := ⟨0, .refl m⟩

theorem of_step (h : step σ tokens m = some m') : Reaches σ tokens m m' := ⟨1, .tail (.refl m) h⟩

theorem trans (h : Reaches σ tokens m m') (h' : Reaches σ tokens m' m'') :
    Reaches σ tokens m m'' := by
  obtain ⟨k, hk⟩ := h
  obtain ⟨k', hk'⟩ := h'
  exact ⟨k + k', hk.trans hk'⟩

end Reaches

/-- The state of the evaluation that a state of the machine stands for. -/
def State.progress (tokens : List Token) (m : State) : Progress :=
  { rest := m.rest tokens, depth := m.depth, skipping := m.skipping, calls := m.calls }

/-- Where the token in front was read, the one behind it is in front. -/
theorem rest_succ {m m' : State} (hcursor : m'.cursor = m.cursor + 1) :
    m'.rest tokens = (m.rest tokens).tail := by
  rw [State.rest, hcursor, State.rest, List.tail_drop]

theorem length_rest_succ {m m' : State} (hcursor : m'.cursor = m.cursor + 1)
    (hne : front (m.rest tokens) ≠ .endOfInput) :
    (m'.rest tokens).length + 1 = (m.rest tokens).length := by
  have hpos := List.length_pos_iff.mpr (ne_nil_of_front rfl hne)
  rw [rest_succ hcursor, List.length_tail]
  omega

theorem progress_succ {m : State} (m' : State) (hcursor : m'.cursor = m.cursor + 1)
    (hdepth : m'.depth = m.depth) (hskipping : m'.skipping = m.skipping)
    (hcalls : m'.calls = m.calls) : m'.progress tokens
      = { m.progress tokens with rest := (m.progress tokens).rest.tail } := by
  rw [State.progress, rest_succ hcursor, hdepth, hskipping, hcalls]
  rfl

/-- From `m` the machine comes to the result of a step, with the frames, the depth and the passing
over of `b`. -/
def Returns (σ : Setting) (tokens : List Token) (m b : State) :
    EStateM.Result EvalError Progress Value → Prop
  | .ok v s => ∃ cursor rounds,
      s = ⟨tokens.drop cursor, b.depth, b.skipping, s.calls⟩ ∧
      Reaches σ tokens m { b with control := .resume v, cursor, calls := s.calls, rounds }
  | .error e s => ∃ cursor rounds, s.rest = tokens.drop cursor ∧
      Reaches σ tokens m { b with control := .raise e, cursor, calls := s.calls, rounds }

namespace Returns

variable {m m' b b' : State} {result : EStateM.Result EvalError Progress Value}

theorem of_reaches (h : Reaches σ tokens m m') (h' : Returns σ tokens m' b result) :
    Returns σ tokens m b result := by
  cases result with
  | ok v s =>
    obtain ⟨cursor, rounds, hs, hreaches⟩ := h'
    exact ⟨cursor, rounds, hs, h.trans hreaches⟩
  | error e s =>
    obtain ⟨cursor, rounds, hs, hreaches⟩ := h'
    exact ⟨cursor, rounds, hs, h.trans hreaches⟩

theorem of_step (h : step σ tokens m = some m') (h' : Returns σ tokens m' b result) :
    Returns σ tokens m b result := h'.of_reaches (.of_step h)

/-- **A step behind another one.** The first leaves the machine with the frames of `b`; from there
it has to come back to `b'`, behind a value with the second step and behind an error at once. -/
theorem bind {x : Step Value} {f : Value → Step Value} {s : Progress}
    (hx : Returns σ tokens m b (x s))
    (hraise : ∀ e cursor calls rounds,
      Reaches σ tokens { b with control := .raise e, cursor, calls, rounds }
        { b' with control := .raise e, cursor, calls, rounds })
    (hresume : ∀ v cursor calls rounds,
      x s = .ok v ⟨tokens.drop cursor, b.depth, b.skipping, calls⟩ →
      Returns σ tokens { b with control := .resume v, cursor, calls, rounds } b'
        (f v ⟨tokens.drop cursor, b.depth, b.skipping, calls⟩)) :
    Returns σ tokens m b' ((x >>= f) s) := by
  cases hres : x s with
  | error e s' =>
    rw [hres] at hx
    obtain ⟨cursor, rounds, hs', hreaches⟩ := hx
    rw [Step.bind_of_error hres]
    exact ⟨cursor, rounds, hs', hreaches.trans (hraise e cursor s'.calls rounds)⟩
  | ok v s' =>
    rw [hres] at hx
    obtain ⟨cursor, rounds, hs', hreaches⟩ := hx
    rw [Step.bind_of_ok hres, hs']
    exact (hresume v cursor s'.calls rounds (by rw [← hs', hres])).of_reaches hreaches

/-- The machine has come back already. -/
theorem value (v : Value) (b : State) (cursor : Nat) (calls : List Call) (rounds : Nat) :
    Returns σ tokens { b with control := .resume v, cursor, calls, rounds } b
      (.ok v ⟨tokens.drop cursor, b.depth, b.skipping, calls⟩) :=
  ⟨cursor, rounds, rfl, .refl _⟩

theorem error (e : EvalError) (b : State) (cursor : Nat) (calls : List Call) (rounds : Nat)
    (s : Progress) (hrest : s.rest = tokens.drop cursor) (hcalls : s.calls = calls) :
    Returns σ tokens { b with control := .raise e, cursor, calls, rounds } b (.error e s) :=
  ⟨cursor, rounds, hrest, hcalls ▸ .refl _⟩

end Returns

/-! ## Goals -/

/-- From any state in which `c` is next, the machine does what a step does. -/
def Drives (σ : Setting) (tokens : List Token) (c : Control) (extra budget : Nat)
    (x : Step Value) : Prop :=
  ∀ m : State, m.control = c → 8 * (m.rest tokens).length + extra ≤ budget →
    Returns σ tokens m m (x (m.progress tokens))

/-- From any value on, the machine does what a loop does, where `frames` is what the loop has on
the stack. -/
def DrivesLoop (σ : Setting) (tokens : List Token) (frames : List Frame → List Frame) (budget : Nat)
    (loop : Value → Step Value) : Prop :=
  ∀ (m : State) (v : Value) (K : List Frame), m.control = .resume v → m.stack = frames K →
    8 * (m.rest tokens).length + 1 ≤ budget →
    Returns σ tokens m { m with stack := K } (loop v (m.progress tokens))

/-- A level that came to a value has fewer tokens in front of it. -/
theorem length_lt_of_consumes {x : Step Value} {m : State} {v : Value} {cursor depth : Nat}
    {skipping : Bool} {calls : List Call} (hx : Consumes (fun _ ↦ 1) (m.progress tokens)
      (x (m.progress tokens)))
    (hok : x (m.progress tokens) = .ok v ⟨tokens.drop cursor, depth, skipping, calls⟩) :
    (tokens.drop cursor).length < (m.rest tokens).length := by
  obtain ⟨read, hread, hpasses⟩ := hx v _ hok
  have hlength := hpasses.length_le
  simp only [State.progress] at hlength hread
  omega

section Drives

variable {extra budget : Nat} {x : Step Value} {loop : Value → Step Value} {l : Level}

/-- An operand and a loop behind it are a row. -/
theorem Drives.row (hx : Drives σ tokens (.enter (.between l)) extra budget x)
    (hconsumes : ∀ s, Consumes (fun _ ↦ 1) s (x s))
    (hloop : DrivesLoop σ tokens (.joints l :: ·) budget loop) :
    Drives σ tokens (.enter (.row l)) (extra + 1) (budget + 1) (x >>= loop) := by
  intro m hcontrol hbudget
  have hbudget' : 8 * (m.rest tokens).length + extra ≤ budget := by omega
  let m₁ : State := { m with control := .enter (.between l), stack := .joints l :: m.stack }
  have hstep : step σ tokens m = some m₁ := by simp only [step, hcontrol, State.enter, m₁]
  refine Returns.of_step hstep (.bind (b := m₁) (hx m₁ rfl hbudget') ?_ ?_)
  · exact fun e cursor calls rounds ↦ .of_step rfl
  · intro v cursor calls rounds hok
    have hlt := length_lt_of_consumes (hconsumes _) hok
    exact hloop { m₁ with control := .resume v, cursor, calls, rounds } v m.stack rfl rfl
      (show 8 * (tokens.drop cursor).length + 1 ≤ budget by
        have hm₁ : (m₁.rest tokens).length = (m.rest tokens).length := rfl
        omega)

/-- A loop is its rounds. -/
theorem DrivesLoop.round {operand : Joint → Value → Step Value} {again : Value → Step Value}
    (hoperand : ∀ j v k, Joint.atLevel? l k = some j →
      Drives σ tokens (State.rightOperand σ l j v) 8 budget (operand j v))
    (hconsumes : ∀ j v s, Consumes (fun _ ↦ 1) s (operand j v s))
    (hagain : DrivesLoop σ tokens (fun K ↦ if l = .comparison then K else .joints l :: K) budget
      again) :
    DrivesLoop σ tokens (.joints l :: ·) (budget + 1) (Step.round l operand again) := by
  intro m v K hcontrol hstack hbudget
  cases hj : Joint.atLevel? l (front (m.rest tokens)) with
  | none =>
    rw [Step.round_end hj]
    refine Returns.of_step ?_ (.value v { m with stack := K } m.cursor m.calls m.rounds)
    simp only [step, hcontrol, hstack, State.resume, hj]
  | some j =>
    have hne : front (m.rest tokens) ≠ .endOfInput := Joint.ne_endOfInput hj
    let m₁ : State :=
      { m with
        control := State.rightOperand σ l j v
        stack := .right l j v :: K
        cursor := m.cursor + 1
        rounds := m.rounds + 1 }
    have hlength : (m₁.rest tokens).length + 1 = (m.rest tokens).length := length_rest_succ rfl hne
    have hstep : step σ tokens m = some m₁ := by
      simp only [step, hcontrol, hstack, State.resume, hj, State.advance, if_neg hne, m₁]
    rw [Step.round_joint hj, ← progress_succ m₁ rfl rfl rfl rfl]
    refine Returns.of_step hstep (.bind (b := m₁) (hoperand j v _ hj m₁ rfl (by omega)) ?_ ?_)
    · exact fun e cursor calls rounds ↦ .of_step rfl
    · intro w cursor calls rounds hok
      have hlt := length_lt_of_consumes (hconsumes j v _) hok
      let m₂ : State :=
        { m with
          control := .resume (j.apply v w)
          stack := if l = .comparison then K else .joints l :: K
          cursor, calls, rounds }
      have hstep₂ : step σ tokens { m₁ with control := .resume w, cursor, calls, rounds }
          = some m₂ := rfl
      refine Returns.of_step hstep₂ (hagain m₂ _ K rfl rfl ?_)
      show 8 * (tokens.drop cursor).length + 1 ≤ budget
      omega

/-- What is done one level deeper. -/
theorem Drives.nested {goal : Goal} (hx : Drives σ tokens (.enter goal) extra budget x)
    (hword : σ.options.maxDepth < wordSize) :
    Drives σ tokens (.nest goal) extra budget (Step.nested σ x) := by
  intro m hcontrol hbudget
  by_cases hdepth : m.depth < σ.options.maxDepth
  · let m₁ : State :=
      { m with control := .enter goal, stack := .leave :: m.stack, depth := m.depth + 1 }
    have hfits : m.depth + 1 < wordSize := by omega
    have hstep : step σ tokens m = some m₁ := by
      simp only [step, hcontrol, State.nest, if_neg (Nat.not_le.mpr hdepth), increment?_of_lt hfits,
        m₁]
    rw [Step.nested_of_lt σ x (s := m.progress tokens) hdepth]
    refine Returns.of_step hstep (.bind (b := m₁) (hx m₁ rfl hbudget) ?_ ?_)
    · exact fun e cursor calls rounds ↦ .of_step rfl
    · intro v cursor calls rounds _
      exact .of_step rfl (.value v m cursor calls rounds)
  · rw [Step.nested_of_le σ x (s := m.progress tokens) (Nat.not_lt.mp hdepth)]
    refine Returns.of_step ?_ (.error _ m m.cursor m.calls m.rounds _ rfl rfl)
    simp only [step, hcontrol, State.nest, if_pos (Nat.not_lt.mp hdepth)]
    rfl

/-- What may be passed over. -/
theorem Drives.skippingIf {goal : Goal} (b : Bool)
    (hx : Drives σ tokens (.enter goal) extra budget x) :
    Drives σ tokens (.skip b goal) extra budget (Step.skippingIf b x) := by
  intro m hcontrol hbudget
  let m₁ : State :=
    { m with
      control := .enter goal
      stack := .restore m.skipping :: m.stack
      skipping := m.skipping || b }
  have hstep : step σ tokens m = some m₁ := by simp only [step, hcontrol, m₁]
  rw [Step.skippingIf_apply]
  refine Returns.of_step hstep (.bind (b := m₁) (hx m₁ rfl hbudget) ?_ ?_)
  · exact fun e cursor calls rounds ↦ .of_step rfl
  · intro v cursor calls rounds _
    exact .of_step rfl (.value v m cursor calls rounds)

theorem Drives.mono {c : Control} {less more : Nat} (hx : Drives σ tokens c less more x)
    (hle : less + budget ≤ extra + more) : Drives σ tokens c extra budget x :=
  fun m hcontrol hbudget ↦ hx m hcontrol (by omega)

end Drives

/-! ## What closes a part off -/

/-- A look-up or a call is an answer. -/
theorem Returns.answer (m : State) (r : Run Value) :
    Returns σ tokens (m.answer r) m (Step.ofRun r (m.progress tokens)) := by
  rw [State.answer, Step.ofRun]
  cases r.result with
  | ok v => exact .value v m m.cursor (m.calls ++ r.calls) m.rounds
  | error e => exact .error e m m.cursor (m.calls ++ r.calls) m.rounds _ rfl rfl

/-- Behind the bracket, or without it, the machine goes on with the same frames. -/
theorem Returns.close {m b : State} {next : State → State} {x : Step Value}
    (hraise : ∀ e, Reaches σ tokens { m with control := .raise e }
      { b with control := .raise e, cursor := m.cursor, calls := m.calls, rounds := m.rounds })
    (hnext : ∀ cursor, Returns σ tokens (next { m with cursor }) b
      (x (State.progress tokens { m with cursor }))) :
    Returns σ tokens (m.close σ tokens next) b
      ((Step.closeParen σ >>= fun _ ↦ x) (m.progress tokens)) := by
  have hclose := Step.closeParen_apply σ (m.progress tokens)
  by_cases hfront : front (m.rest tokens) = .closeParen
  · have hne : front (m.rest tokens) ≠ .endOfInput := by simp [hfront]
    have hprogress : State.progress tokens { m with cursor := m.cursor + 1 }
        = { m.progress tokens with rest := (m.progress tokens).rest.tail } :=
      progress_succ _ rfl rfl rfl rfl
    have hstate : m.close σ tokens next = next { m with cursor := m.cursor + 1 } := by
      rw [State.close, hfront, State.advance, if_neg hne]
    rw [show front (m.progress tokens).rest = .closeParen from hfront] at hclose
    rw [Step.bind_of_ok hclose, hstate, ← hprogress]
    exact hnext _
  · have hopen : Step.closeParen σ (m.progress tokens) = if σ.options.strict then
        .error (.unclosedParen (m.position σ tokens)) (m.progress tokens)
        else .ok () (m.progress tokens) := by
      rw [hclose]
      split
      · next h => exact absurd h hfront
      · rfl
    have hstate : m.close σ tokens next = if σ.options.strict then
        { m with control := .raise (.unclosedParen (m.position σ tokens)) } else next m := by
      rw [State.close]
      split
      · next h => exact absurd h hfront
      · rfl
    by_cases hstrict : σ.options.strict = true
    · rw [if_pos hstrict] at hopen hstate
      rw [Step.bind_of_error hopen, hstate]
      exact .of_reaches (hraise _) (.error _ b m.cursor m.calls m.rounds _ rfl rfl)
    · rw [if_neg hstrict] at hopen hstate
      rw [Step.bind_of_ok hopen, hstate]
      exact hnext m.cursor

/-! ## The levels -/

/-- From any arguments on, the machine does what the rest of a call does. -/
def DrivesCall (σ : Setting) (tokens : List Token) (budget : Nat)
    (arguments : Step (List Value)) : Prop :=
  ∀ (m : State) (name : String) (offset : Nat) (vs : List Value),
    m.control = .arguments name offset vs → 8 * (m.rest tokens).length + 9 ≤ budget →
    Returns σ tokens m m ((do
      let ws ← arguments
      Step.closeParen σ
      Step.call σ name (vs ++ ws) offset : Step Value) (m.progress tokens))

/-- The machine does what every level does under a budget. -/
structure Driven (σ : Setting) (tokens : List Token) (n : Nat) : Prop where
  expression : Drives σ tokens (.nest (.row .disjunction)) 8 n (Step.expression σ n)
  condition : Drives σ tokens (.enter (.row .conjunction)) 7 n (Step.condition σ n)
  conditionsFrom : DrivesLoop σ tokens (.joints .disjunction :: ·) n (Step.conditionsFrom σ n)
  term : Drives σ tokens (.enter .term) 6 n (Step.term σ n)
  termsFrom : DrivesLoop σ tokens (.joints .conjunction :: ·) n (Step.termsFrom σ n)
  comparison : Drives σ tokens (.enter (.row .comparison)) 5 n (Step.comparison σ n)
  sum : Drives σ tokens (.enter (.row .sum)) 4 n (Step.sum σ n)
  productsFrom : DrivesLoop σ tokens (.joints .sum :: ·) n (Step.productsFrom σ n)
  product : Drives σ tokens (.enter (.row .product)) 3 n (Step.product σ n)
  operandsFrom : DrivesLoop σ tokens (.joints .product :: ·) n (Step.operandsFrom σ n)
  operand : Drives σ tokens (.enter .operand) 2 n (Step.operand σ n)
  arguments : DrivesCall σ tokens n (Step.arguments σ n)

namespace Driven

variable {n : Nat}

theorem term_succ (hn : Driven σ tokens n) (hword : σ.options.maxDepth < wordSize) :
    Drives σ tokens (.enter .term) 6 (n + 1) (Step.term σ (n + 1)) := by
  intro m hcontrol hbudget
  rw [Step.term, Step.peek_bind]
  by_cases hnot : (front (m.rest tokens)).isKeyword "not" = true
  · have hne : front (m.rest tokens) ≠ .endOfInput := by simp [TokenKind.eq_of_isKeyword hnot]
    let m₁ : State :=
      { m with control := .nest .term, stack := .negation :: m.stack, cursor := m.cursor + 1 }
    have hstep : step σ tokens m = some m₁ := by
      simp only [step, hcontrol, State.enter, if_pos hnot, State.advance, if_neg hne, m₁]
    have hlength : (m₁.rest tokens).length + 1 = (m.rest tokens).length := length_rest_succ rfl hne
    rw [if_pos (show (front (m.progress tokens).rest).isKeyword "not" = true from hnot),
      Step.advance_bind, ← progress_succ m₁ rfl rfl rfl rfl]
    refine Returns.of_step hstep (.bind (b := m₁) (hn.term.nested hword m₁ rfl (by omega)) ?_ ?_)
    · exact fun e cursor calls rounds ↦ .of_step rfl
    · intro v cursor calls rounds _
      exact .of_step rfl (.value (.boolean (!v.isTruthy)) m cursor calls rounds)
  · rw [if_neg (show ¬(front (m.progress tokens).rest).isKeyword "not" = true from hnot)]
    let m₁ : State := { m with control := .enter (.row .comparison) }
    have hstep : step σ tokens m = some m₁ := by
      simp only [step, hcontrol, State.enter, if_neg hnot, m₁]
    exact .of_step hstep (hn.comparison m₁ rfl (show 8 * (m.rest tokens).length + 5 ≤ n by omega))

/-- A group, from behind its opening bracket. -/
theorem group (hn : Driven σ tokens n) {m m₁ : State}
    (hm₁ : m₁ = { m with control := .nest (.row .disjunction), stack := .group :: m.stack })
    (hbudget : 8 * (m.rest tokens).length + 8 ≤ n) : Returns σ tokens m₁ m ((do
      let v ← Step.expression σ n
      Step.closeParen σ
      return v : Step Value) (m.progress tokens)) := by
  subst hm₁
  refine .bind (hn.expression { m with
    control := .nest (.row .disjunction), stack := .group :: m.stack } rfl hbudget) ?_ ?_
  · exact fun e cursor calls rounds ↦ .of_step rfl
  · intro v cursor calls rounds _
    let m₂ : State :=
      { m with control := .resume v, stack := .group :: m.stack, cursor, calls, rounds }
    have hclose : Returns σ tokens
        (m₂.close σ tokens fun m' ↦ { m' with control := .resume v, stack := m.stack }) m
        ((Step.closeParen σ >>= fun _ ↦ pure v) (m₂.progress tokens)) :=
      .close (fun e ↦ .of_step rfl) fun cursor' ↦ .value v m cursor' calls rounds
    exact .of_step rfl hclose

/-- A name and what follows it. -/
theorem named (hn : Driven σ tokens n) {m : State} {name : String} {offset : Nat}
    (hcontrol : m.control = .named name offset) (hbudget : 8 * (m.rest tokens).length + 1 ≤ n) :
    Returns σ tokens m m ((do
      match ← Step.peek with
      | .openParen =>
        Step.advance
        let vs ← Step.arguments σ n
        Step.closeParen σ
        Step.call σ name vs offset
      | _ => Step.lookUp σ name offset : Step Value) (m.progress tokens)) := by
  have hstep : step σ tokens m = some (m.named σ tokens name offset) := by
    simp only [step, hcontrol]
  have hlookUp : Returns σ tokens (m.answer (σ.scope.lookUp m.skipping name offset)) m
      (Step.lookUp σ name offset (m.progress tokens)) := by
    rw [Step.lookUp_apply]
    exact .answer m _
  refine .of_step hstep ?_
  rw [Step.peek_bind, State.named]
  cases hfront : front (m.rest tokens)
  case openParen =>
    have hne : front (m.rest tokens) ≠ .endOfInput := by simp [hfront]
    let m₁ : State := { m with control := .arguments name offset [], cursor := m.cursor + 1 }
    have hlength : (m₁.rest tokens).length + 1 = (m.rest tokens).length := length_rest_succ rfl hne
    have hadvance : m.advance tokens = { m with cursor := m.cursor + 1 } := if_neg hne
    have hprogress : m₁.progress tokens
        = { m.progress tokens with rest := (m.progress tokens).rest.tail } :=
      progress_succ _ rfl rfl rfl rfl
    rw [show front (m.progress tokens).rest = .openParen from hfront]
    simp only [hadvance]
    rw [Step.advance_bind, ← hprogress]
    exact hn.arguments m₁ name offset [] rfl (by omega)
  all_goals
    rw [show front (m.progress tokens).rest = _ from hfront]
    exact hlookUp

theorem operand_succ (hn : Driven σ tokens n) :
    Drives σ tokens (.enter .operand) 2 (n + 1) (Step.operand σ (n + 1)) := by
  intro m hcontrol hbudget
  have hstep : step σ tokens m = some (m.enter σ tokens .operand) := by simp only [step, hcontrol]
  refine .of_step hstep ?_
  rw [Step.operand, Step.position_bind, Step.peek_bind, State.enter]
  have hprogress : State.progress tokens { m with cursor := m.cursor + 1 }
      = { m.progress tokens with rest := (m.progress tokens).rest.tail } :=
    progress_succ _ rfl rfl rfl rfl
  have hvalue : ∀ v : Value, Returns σ tokens
      { m with control := .resume v, cursor := m.cursor + 1 } m
      (.ok v { m.progress tokens with rest := (m.progress tokens).rest.tail }) := by
    intro v
    rw [← hprogress]
    exact .value v m (m.cursor + 1) m.calls m.rounds
  have hrefuse : Returns σ tokens
      { m with control := .raise (.unexpectedToken (front (m.rest tokens)) (m.position σ tokens)) }
      m (Step.refuse σ (m.progress tokens)) := by
    rw [Step.refuse_apply]
    exact .error _ m m.cursor m.calls m.rounds _ rfl rfl
  by_cases hend : front (m.rest tokens) = .endOfInput
  · rw [show front (m.progress tokens).rest = .endOfInput from hend]
    rw [hend] at hrefuse ⊢
    exact hrefuse
  have hadvance : m.advance tokens = { m with cursor := m.cursor + 1 } := if_neg hend
  have hlength : (State.rest tokens { m with cursor := m.cursor + 1 }).length + 1
      = (m.rest tokens).length := length_rest_succ rfl hend
  rw [hadvance]
  cases hfront : front (m.rest tokens) <;>
    rw [show front (m.progress tokens).rest = _ from hfront] <;> rw [hfront] at hrefuse
  case number x => exact hvalue (.number x)
  case text x => exact hvalue (.text x)
  case boolean x => exact hvalue (.boolean x)
  case openParen =>
    have hgroup := hn.group (m := { m with cursor := m.cursor + 1 }) rfl (by omega)
    rw [hprogress] at hgroup
    exact hgroup
  case identifier name =>
    let m₁ : State :=
      { m with control := .named name (m.position σ tokens), cursor := m.cursor + 1 }
    have hm₁ : m₁.progress tokens
        = { m.progress tokens with rest := (m.progress tokens).rest.tail } := hprogress
    have hnamed := hn.named (m := m₁) rfl
      (show 8 * (State.rest tokens { m with cursor := m.cursor + 1 }).length + 1 ≤ n by omega)
    rw [hm₁] at hnamed
    exact hnamed
  all_goals exact hrefuse

/-- Behind the value of an argument there may be a comma. -/
theorem step_argument {m : State} {v : Value} {name : String} {offset : Nat} {vs : List Value}
    {K : List Frame} (hcontrol : m.control = .resume v)
    (hstack : m.stack = .argument name offset vs :: K) : ∃ cursor',
      step σ tokens m = some { m with
        control := .arguments name offset (vs ++ [v]), stack := K, cursor := cursor' } ∧
      afterComma (m.rest tokens) = tokens.drop cursor' := by
  have hstep : step σ tokens m
      = some (m.resume σ tokens v K (.argument name offset vs)) := by
    simp only [step, hcontrol, hstack]
  by_cases hcomma : front (m.rest tokens) = .comma
  · have hne : front (m.rest tokens) ≠ .endOfInput := by simp [hcomma]
    refine ⟨m.cursor + 1, ?_, ?_⟩
    · rw [hstep, State.resume, hcomma, State.advance, if_neg hne]
    · rw [afterComma, hcomma, State.rest, List.tail_drop]
  · refine ⟨m.cursor, ?_, ?_⟩
    · rw [hstep, State.resume]
      split
      · next h => exact absurd h hcomma
      · rfl
    · rw [afterComma]
      split
      · next h => exact absurd h hcomma
      · rfl

theorem arguments_succ (hn : Driven σ tokens n) :
    DrivesCall σ tokens (n + 1) (Step.arguments σ (n + 1)) := by
  intro m name offset vs hcontrol hbudget
  have hstep : step σ tokens m = some (m.arguments σ tokens name offset vs) := by
    simp only [step, hcontrol]
  refine .of_step hstep ?_
  by_cases hends : endsArguments (front (m.rest tokens))
  · rw [Step.bind_of_ok (Step.arguments_end σ n (s := m.progress tokens) hends), List.append_nil,
      State.arguments, if_pos hends]
    refine .close (fun e ↦ .refl _) fun cursor ↦ ?_
    rw [Step.call_apply]
    exact .answer { m with cursor } _
  · let m₁ : State :=
      { m with
        control := .nest (.row .disjunction)
        stack := .argument name offset vs :: m.stack
        rounds := m.rounds + 1 }
    have hbudget₁ : 8 * (m₁.rest tokens).length + 8 ≤ n := by
      have hm₁ : (m₁.rest tokens).length = (m.rest tokens).length := rfl
      omega
    rw [Step.bind_congr (Step.arguments_more σ n (s := m.progress tokens) hends), State.arguments,
      if_neg hends]
    simp only [bind_assoc, pure_bind]
    refine .bind (b := m₁) (hn.expression m₁ rfl hbudget₁) ?_ ?_
    · exact fun e cursor calls rounds ↦ .of_step rfl
    · intro v cursor calls rounds hok
      have hlt := length_lt_of_consumes ((consuming σ n).expression _) hok
      have hm₁ : (m₁.rest tokens).length = (m.rest tokens).length := rfl
      let m₂ : State := { m₁ with control := .resume v, cursor, calls, rounds }
      obtain ⟨cursor', hstep₂, hcomma⟩ := step_argument (σ := σ) (m := m₂) rfl rfl
      have hle := (afterComma_suffix (m₂.rest tokens)).length_le
      have hm₂ : (m₂.rest tokens).length = (tokens.drop cursor).length := rfl
      let m₃ : State :=
        { m with control := .arguments name offset (vs ++ [v]), cursor := cursor', calls, rounds }
      have harguments := hn.arguments m₃ name offset (vs ++ [v]) rfl
        (show 8 * (tokens.drop cursor').length + 9 ≤ n by rw [← hcomma]; omega)
      simp only [List.append_assoc, List.singleton_append] at harguments
      refine .of_step hstep₂ ?_
      rw [Step.comma_bind, show afterComma (tokens.drop cursor) = tokens.drop cursor' from hcomma]
      exact harguments

/-! ## The levels together -/

theorem zero (σ : Setting) (tokens : List Token) : Driven σ tokens 0 where
  expression _ _ hbudget := absurd hbudget (by omega)
  condition _ _ hbudget := absurd hbudget (by omega)
  conditionsFrom _ _ _ _ _ hbudget := absurd hbudget (by omega)
  term _ _ hbudget := absurd hbudget (by omega)
  termsFrom _ _ _ _ _ hbudget := absurd hbudget (by omega)
  comparison _ _ hbudget := absurd hbudget (by omega)
  sum _ _ hbudget := absurd hbudget (by omega)
  productsFrom _ _ _ _ _ hbudget := absurd hbudget (by omega)
  product _ _ hbudget := absurd hbudget (by omega)
  operandsFrom _ _ _ _ _ hbudget := absurd hbudget (by omega)
  operand _ _ hbudget := absurd hbudget (by omega)
  arguments _ _ _ _ _ hbudget := absurd hbudget (by omega)

theorem comparison_succ (hn : Driven σ tokens n) :
    Drives σ tokens (.enter (.row .comparison)) 5 (n + 1) (Step.comparison σ (n + 1)) := by
  have hconsuming := consuming σ n
  rw [Step.comparison_succ]
  refine .row (l := .comparison) hn.sum hconsuming.sum ?_
  cases n with
  | zero => exact fun _ _ _ _ _ hbudget ↦ absurd hbudget (by omega)
  | succ n =>
    refine .round (fun j v k hj ↦ hn.sum.mono (by omega)) (fun j v ↦ hconsuming.sum) ?_
    rintro ⟨control, stack, cursor, depth, skipping, calls, rounds⟩ v K hcontrol hstack -
    cases hcontrol
    cases hstack
    exact .value v _ cursor calls rounds

theorem succ (hn : Driven σ tokens n) (hword : σ.options.maxDepth < wordSize) :
    Driven σ tokens (n + 1) := by
  have hconsuming := consuming σ n
  constructor
  case expression =>
    rw [Step.expression]
    exact (Drives.row (l := .disjunction) hn.condition hconsuming.condition
      hn.conditionsFrom).nested hword
  case condition =>
    rw [Step.condition]
    exact .row (l := .conjunction) hn.term hconsuming.term hn.termsFrom
  case conditionsFrom =>
    rw [Step.conditionsFrom_succ]
    refine .round (fun j v k hj ↦ ?_) (fun j v ↦ .skippingIf _ hconsuming.condition)
      hn.conditionsFrom
    exact (hn.condition.skippingIf _).mono (by omega)
  case term => exact hn.term_succ hword
  case termsFrom =>
    rw [Step.termsFrom_succ]
    refine .round (fun j v k hj ↦ ?_) (fun j v ↦ .skippingIf _ hconsuming.term) hn.termsFrom
    exact (hn.term.skippingIf _).mono (by omega)
  case comparison => exact hn.comparison_succ
  case sum =>
    rw [Step.sum]
    exact .row (l := .sum) hn.product hconsuming.product hn.productsFrom
  case productsFrom =>
    rw [Step.productsFrom_succ]
    exact .round (fun j v k hj ↦ hn.product.mono (by omega)) (fun j v ↦ hconsuming.product)
      hn.productsFrom
  case product =>
    rw [Step.product]
    exact .row (l := .product) hn.operand hconsuming.operand hn.operandsFrom
  case operandsFrom =>
    rw [Step.operandsFrom_succ]
    exact .round (fun j v k hj ↦ hn.operand.mono (by omega)) (fun j v ↦ hconsuming.operand)
      hn.operandsFrom
  case operand => exact hn.operand_succ
  case arguments => exact hn.arguments_succ

end Driven

/-- **The machine does what every level does**, under any budget that covers the tokens in front. -/
theorem driven (tokens : List Token) (hword : σ.options.maxDepth < wordSize) (n : Nat) :
    Driven σ tokens n := by
  induction n with
  | zero => exact .zero σ tokens
  | succ n ih => exact ih.succ hword

end Machine

end Formula
