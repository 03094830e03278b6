import Formula.Proofs.Steps

/-!
# The evaluation as a machine

The levels of `Formula.Evaluation` call each other, and what holds between a call and its return
cannot be said of a function that only answers. Here the evaluation is taken apart into steps that
do not call anything. A list of frames holds what the levels in progress still have to do. A cursor
counts the tokens that were read, of a list from which none is dropped, with any number of end
markers in it. What a level changes for a while and puts back, the depth and the passing over, is
put back by frames, behind a value and behind an error alike. There is no budget.

The depth is counted as by a machine word: a level is opened by an increment that is checked against
`2 ^ 64` and closed by a decrement that is checked against zero. A count that would leave its range
stops the machine in a state of its own (`overflow`).

## The invariant

`Sound` says of a state that the cursor is not behind the first marker, that the depth is the number
of levels that have to be closed again and at most the limit, and that there were no more rounds
than tokens. A round is a joint that is read or an argument that is begun. A joint is a token of its
own; an argument is begun before its first token is read, and for this one token rounds may be ahead
of the cursor.

## The measure

A step that reads no token has to bring down something else. `potential` weighs what is done next
and what the frames still have to do, and a token in front of the first marker weighs more than all
that can follow from reading it. The one step that seems to go up is the beginning of an argument:
nothing is read and a whole expression is to come. A list of arguments therefore weighs enough for
one more of them, and it gets that weight back from the value of the argument, which has cost a
token.
-/

namespace Formula

open Reader

namespace Machine

/-! ## States -/

/-- What is to be read. -/
inductive Goal where
  /-- Operands, and joints of a level between them. -/
  | row (l : Level)
  | term
  | operand
  deriving DecidableEq, Repr

/-- What the joints of a level stand between. -/
def Goal.between : Level → Goal
  | .disjunction => row .conjunction
  | .conjunction => term
  | .comparison => row .sum
  | .sum => row .product
  | .product => operand

/-- What is done next. -/
inductive Control where
  /-- A goal, one level deeper. -/
  | nest (goal : Goal)
  /-- A goal that is passed over if `skip` says so or something around it is. -/
  | skip (skip : Bool) (goal : Goal)
  | enter (goal : Goal)
  /-- What follows a name. -/
  | named (name : String) (offset : Nat)
  /-- What follows the arguments that have values already. -/
  | arguments (name : String) (offset : Nat) (values : List Value)
  /-- The last goal came to a value. -/
  | resume (v : Value)
  /-- The last goal failed. -/
  | raise (e : EvalError)
  | overflow

/-- What is still to be done behind a value. -/
inductive Frame where
  | leave
  | restore (skipping : Bool)
  /-- Joints of a level may follow. -/
  | joints (l : Level)
  /-- The value is a right operand. -/
  | right (l : Level) (j : Joint) (left : Value)
  | negation
  | group
  | argument (name : String) (offset : Nat) (values : List Value)

structure State where
  control : Control
  /-- What remains to be done, the innermost first. -/
  stack : List Frame := []
  /-- How many tokens were read. -/
  cursor : Nat := 0
  depth : Nat := 0
  skipping : Bool := false
  calls : List Call := []
  /-- How many joints were read and how many arguments begun. -/
  rounds : Nat := 0

/-- The state from which a whole list of tokens is evaluated. -/
def start : State := { control := .nest (.row .disjunction) }

/-! ## Steps -/

/-- How many values a machine word has, `2 ^ 64`. -/
def wordSize : Nat := 0x10000000000000000

/-- One more, if it fits. -/
def increment? (n : Nat) : Option Nat := if n + 1 < wordSize then some (n + 1) else none

theorem increment?_of_lt {n : Nat} (h : n + 1 < wordSize) : increment? n = some (n + 1) := if_pos h

/-- One less, if there is one. -/
def decrement? : Nat → Option Nat
  | 0 => none
  | n + 1 => some n

section Steps

variable (σ : Setting) (tokens : List Token)

namespace State

/-- The tokens from the one in front. -/
def rest (m : State) : List Token := tokens.drop m.cursor

/-- The offset at which an error is reported. -/
def position (m : State) : Nat := σ.grammar.position (m.rest tokens)

/-- Reads the token in front. An end stays where it is. -/
def advance (m : State) : State :=
  if front (m.rest tokens) = .endOfInput then m else { m with cursor := m.cursor + 1 }

@[simp] theorem advance_stack (m : State) : (m.advance tokens).stack = m.stack := by
  unfold advance
  split <;> rfl

/-- Goes on with the result of a look-up or a call. -/
def answer (m : State) (r : Run Value) : State :=
  { m with
    control := match r.result with
      | .ok v => .resume v
      | .error e => .raise e
    calls := m.calls ++ r.calls }

/-- Reads a closing bracket, on which only strict evaluation insists, and goes on. -/
def close (m : State) (next : State → State) : State :=
  match front (m.rest tokens) with
  | .closeParen => next (m.advance tokens)
  | _ =>
    if σ.options.strict then { m with control := .raise (.unclosedParen (m.position σ tokens)) }
    else next m

/-- Opens a level for a goal. -/
def nest (m : State) (goal : Goal) : State :=
  if σ.options.maxDepth ≤ m.depth then
    { m with
      control := .raise (.depthExceeded σ.options.maxDepth (m.position σ tokens)) }
  else match increment? m.depth with
    | some depth => { m with control := .enter goal, stack := .leave :: m.stack, depth }
    | none => { m with control := .overflow }

/-- Begins with a goal. -/
def enter (m : State) : Goal → State
  | .row l => { m with control := .enter (.between l), stack := .joints l :: m.stack }
  | .term =>
    if (front (m.rest tokens)).isKeyword "not" then
      { m.advance tokens with control := .nest .term, stack := .negation :: m.stack }
    else { m with control := .enter (.row .comparison) }
  | .operand =>
    match front (m.rest tokens) with
    | .number x => { m.advance tokens with control := .resume (.number x) }
    | .text s => { m.advance tokens with control := .resume (.text s) }
    | .boolean b => { m.advance tokens with control := .resume (.boolean b) }
    | .openParen =>
      { m.advance tokens with control := .nest (.row .disjunction), stack := .group :: m.stack }
    | .identifier name =>
      { m.advance tokens with control := .named name (m.position σ tokens) }
    | k => { m with control := .raise (.unexpectedToken k (m.position σ tokens)) }

/-- A call if a bracket opens behind the name, and a variable otherwise. -/
def named (m : State) (name : String) (offset : Nat) : State :=
  match front (m.rest tokens) with
  | .openParen => { m.advance tokens with control := .arguments name offset [] }
  | _ => m.answer (σ.scope.lookUp m.skipping name offset)

/-- The call if the arguments end, and another argument otherwise. -/
def arguments (m : State) (name : String) (offset : Nat) (vs : List Value) : State :=
  if endsArguments (front (m.rest tokens)) then
    m.close σ tokens fun m ↦ m.answer (σ.scope.call m.skipping name vs offset)
  else
    { m with
      control := .nest (.row .disjunction)
      stack := .argument name offset vs :: m.stack
      rounds := m.rounds + 1 }

/-- What is done about the right operand of a joint. Only the two loosest levels pass over. -/
def rightOperand (l : Level) (j : Joint) (left : Value) : Control :=
  match l with
  | .disjunction | .conjunction =>
    .skip (σ.options.shortCircuit && j.isDecidedBy left) (.between l)
  | .comparison | .sum | .product => .enter (.between l)

/-- What a frame does with a value. The stack is what is left without the frame. -/
def resume (m : State) (v : Value) (stack : List Frame) : Frame → State
  | .leave =>
    match decrement? m.depth with
    | some depth => { m with control := .resume v, stack, depth }
    | none => { m with control := .overflow }
  | .restore skipping => { m with control := .resume v, stack, skipping }
  | .joints l =>
    match Joint.atLevel? l (front (m.rest tokens)) with
    | some j =>
      { m.advance tokens with
        control := rightOperand σ l j v
        stack := .right l j v :: stack
        rounds := m.rounds + 1 }
    | none => { m with control := .resume v, stack }
  | .right l j left =>
    -- there is at most one comparison
    { m with
      control := .resume (j.apply left v)
      stack := if l = .comparison then stack else .joints l :: stack }
  | .negation => { m with control := .resume (.boolean (!v.isTruthy)), stack }
  | .group => m.close σ tokens fun m ↦ { m with control := .resume v, stack }
  | .argument name offset vs =>
    match front (m.rest tokens) with
    | .comma => { m.advance tokens with control := .arguments name offset (vs ++ [v]), stack }
    | _ => { m with control := .arguments name offset (vs ++ [v]), stack }

/-- What a frame does in the wake of an error: it only undoes. -/
def raise (m : State) (e : EvalError) (stack : List Frame) : Frame → State
  | .leave =>
    match decrement? m.depth with
    | some depth => { m with control := .raise e, stack, depth }
    | none => { m with control := .overflow }
  | .restore skipping => { m with control := .raise e, stack, skipping }
  | _ => { m with control := .raise e, stack }

end State

/-- The next state, if the machine has not stopped. -/
def step (m : State) : Option State :=
  match m.control, m.stack with
  | .nest goal, _ => some (m.nest σ tokens goal)
  | .skip skip goal, stack =>
    some
      { m with
        control := .enter goal
        stack := .restore m.skipping :: stack
        skipping := m.skipping || skip }
  | .enter goal, _ => some (m.enter σ tokens goal)
  | .named name offset, _ => some (m.named σ tokens name offset)
  | .arguments name offset vs, _ => some (m.arguments σ tokens name offset vs)
  | .resume v, f :: stack => some (m.resume σ tokens v stack f)
  | .raise e, f :: stack => some (m.raise e stack f)
  | .resume _, [] | .raise _, [] | .overflow, _ => none

/-- From one state to another in so many steps. -/
inductive Steps : Nat → State → State → Prop
  | refl (m : State) : Steps 0 m m
  | tail {k : Nat} {m m' m'' : State} (h : Steps k m m') (hstep : step σ tokens m' = some m'') :
    Steps (k + 1) m m''

end Steps

/-! ## Soundness -/

/-- The index of the first end marker; without one, the number of tokens. -/
def markerIndex (tokens : List Token) : Nat := tokens.findIdx (·.kind == .endOfInput)

/-- By how much rounds may be ahead of the cursor. -/
def Control.ahead : Control → Nat
  | nest _ | skip _ _ | enter _ | raise _ => 1
  | named _ _ | arguments _ _ _ | resume _ | overflow => 0

def Frame.isLeave : Frame → Bool
  | leave => true
  | _ => false

/-- What holds of every state of an evaluation. -/
structure Sound (σ : Setting) (tokens : List Token) (m : State) : Prop where
  cursor_le : m.cursor ≤ markerIndex tokens
  depth_eq : m.depth = m.stack.countP Frame.isLeave
  depth_le : m.depth ≤ σ.options.maxDepth
  running : m.control ≠ .overflow
  rounds_le : m.rounds ≤ markerIndex tokens
  rounds_le_cursor : m.rounds ≤ m.cursor + m.control.ahead

theorem sound_start (σ : Setting) (tokens : List Token) : Sound σ tokens start where
  cursor_le := Nat.zero_le _
  depth_eq := rfl
  depth_le := Nat.zero_le _
  running h := nomatch h
  rounds_le := Nat.zero_le _
  rounds_le_cursor := Nat.zero_le _

/-! ## The measure -/

def Goal.weight : Goal → Nat
  | .operand => 1
  | .row .product => 3
  | .row .sum => 5
  | .row .comparison => 7
  | .term => 8
  | .row .conjunction => 10
  | .row .disjunction => 12

def Control.weight : Control → Nat
  | nest goal | skip _ goal => goal.weight + 2
  | enter goal => goal.weight
  | named _ _ | arguments _ _ _ => 17
  | resume _ => 16
  | raise _ | overflow => 0

def Frame.weight : Frame → Nat
  | right _ _ _ | argument _ _ _ => 2
  | leave | restore _ | joints _ | negation | group => 1

def weightOfAll : List Frame → Nat
  | [] => 0
  | f :: stack => f.weight + weightOfAll stack

/-- What is done next and what is still to be done together. -/
def State.load (m : State) : Nat := m.control.weight + weightOfAll m.stack

/-- A bound on the number of steps that are left. -/
def potential (tokens : List Token) (m : State) : Nat :=
  17 * (markerIndex tokens - m.cursor) + m.load

theorem Goal.weight_between_lt (l : Level) : (between l).weight + 1 < (row l).weight := by
  cases l <;> decide

/-- In front of the first marker there is something to be read. -/
theorem lt_markerIndex {tokens : List Token} {i : Nat} (hi : i ≤ markerIndex tokens)
    (hfront : front (tokens.drop i) ≠ .endOfInput) : i < markerIndex tokens := by
  refine Nat.lt_of_le_of_ne hi ?_
  rintro rfl
  have hlt : markerIndex tokens < tokens.length := by
    refine Nat.lt_of_not_le fun hle ↦ hfront ?_
    rw [List.drop_eq_nil_of_le hle]
    rfl
  rw [List.drop_eq_getElem_cons hlt] at hfront
  have hmarker := List.findIdx_getElem (p := fun t : Token ↦ t.kind == .endOfInput) (w := hlt)
  exact hfront (beq_iff_eq.mp hmarker)

/-! ## What a step keeps -/

/-- A step is sound and makes the measure fall. -/
structure Improves (σ : Setting) (tokens : List Token) (m m' : State) : Prop where
  sound : Sound σ tokens m'
  lt : potential tokens m' < potential tokens m

section Improves

variable {σ : Setting} {tokens : List Token} {m m' : State}

/-- A step that reads nothing. -/
theorem Improves.standing (h : Sound σ tokens m) (hcursor : m'.cursor = m.cursor)
    (hdepth : m'.depth = m.depth) (hrounds : m'.rounds = m.rounds)
    (hlevels : m'.stack.countP Frame.isLeave = m.stack.countP Frame.isLeave)
    (hrunning : m'.control ≠ .overflow) (hahead : m.control.ahead ≤ m'.control.ahead)
    (hload : m'.load < m.load) : Improves σ tokens m m' where
  sound := {
    cursor_le := hcursor ▸ h.cursor_le
    depth_eq := by rw [hdepth, hlevels, h.depth_eq]
    depth_le := hdepth ▸ h.depth_le
    running := hrunning
    rounds_le := hrounds ▸ h.rounds_le
    rounds_le_cursor := by
      rw [hrounds, hcursor]
      exact Nat.le_trans h.rounds_le_cursor (Nat.add_le_add_left hahead _) }
  lt := by
    rw [potential, potential, hcursor]
    exact Nat.add_lt_add_left hload _

/-- A step that reads a token. -/
theorem Improves.moving (h : Sound σ tokens m) (hfront : front (m.rest tokens) ≠ .endOfInput)
    (hcursor : m'.cursor = m.cursor + 1) (hdepth : m'.depth = m.depth)
    (hrounds : m'.rounds + m.control.ahead ≤ m.rounds + 1)
    (hlevels : m'.stack.countP Frame.isLeave = m.stack.countP Frame.isLeave)
    (hrunning : m'.control ≠ .overflow) (hload : m'.load < m.load + 17) :
    Improves σ tokens m m' := by
  have hlt := lt_markerIndex h.cursor_le hfront
  have hcursor_le := h.rounds_le_cursor
  constructor
  · constructor
    · omega
    · rw [hdepth, hlevels, h.depth_eq]
    · exact hdepth ▸ h.depth_le
    · exact hrunning
    · omega
    · omega
  · rw [potential, potential]
    omega

theorem Improves.of_le {m₀ : State} (hle : potential tokens m ≤ potential tokens m₀)
    (h : Improves σ tokens m m') : Improves σ tokens m₀ m' :=
  ⟨h.sound, Nat.lt_of_lt_of_le h.lt hle⟩

/-- A failure is a step that reads nothing. -/
theorem Improves.fail (h : Sound σ tokens m) (hweight : 0 < m.control.weight) (e : EvalError)
    (hahead : m.control.ahead ≤ 1) : Improves σ tokens m { m with control := .raise e } :=
  .standing h rfl rfl rfl rfl nofun hahead (Nat.add_lt_add_right hweight _)

/-- Closing a bracket is as good as what follows it. -/
theorem Improves.close {m₀ : State} (h : Sound σ tokens m)
    (hle : potential tokens m ≤ potential tokens m₀) (hahead : m.control.ahead = 0)
    (hweight : 0 < m.control.weight) {next : State → State}
    (hnext : ∀ m₁, Sound σ tokens m₁ → m₁.control = m.control → m₁.stack = m.stack →
      potential tokens m₁ ≤ potential tokens m → Improves σ tokens m₀ (next m₁)) :
    Improves σ tokens m₀ (m.close σ tokens next) := by
  unfold State.close
  split
  · next hfront =>
    have hne : front (m.rest tokens) ≠ .endOfInput := by simp [hfront]
    have hlt := lt_markerIndex h.cursor_le hne
    have hrounds := h.rounds_le_cursor
    rw [State.advance, if_neg hne]
    refine hnext _ ⟨hlt, h.depth_eq, h.depth_le, h.running, h.rounds_le, ?_⟩ rfl rfl ?_
    · simp only [hahead] at hrounds ⊢
      exact Nat.le_succ_of_le hrounds
    · exact Nat.add_le_add_right (Nat.mul_le_mul_left 17 (Nat.sub_le_sub_left (Nat.le_succ _) _)) _
  · split
    · exact (Improves.fail h hweight _ (by omega)).of_le hle
    · exact hnext m h rfl rfl (Nat.le_refl _)

theorem Improves.nest (h : Sound σ tokens m) {goal : Goal} (hcontrol : m.control = .nest goal)
    (hword : σ.options.maxDepth < wordSize) :
    Improves σ tokens m (m.nest σ tokens goal) := by
  have hahead : m.control.ahead = 1 := by rw [hcontrol]; rfl
  have hweight : m.control.weight = goal.weight + 2 := by rw [hcontrol]; rfl
  unfold State.nest
  split
  · exact .fail h (by omega) _ (by omega)
  · next hdepth =>
    have hfits : m.depth + 1 < wordSize := by omega
    rw [increment?_of_lt hfits]
    constructor
    · constructor
      · exact h.cursor_le
      · simp only [h.depth_eq, List.countP_cons, Frame.isLeave, if_true]
      · exact Nat.lt_of_not_le hdepth
      · exact nofun
      · exact h.rounds_le
      · have hrounds := h.rounds_le_cursor
        rw [hahead] at hrounds
        exact hrounds
    · rw [potential, potential, State.load, State.load, hweight]
      simp only [Control.weight, Frame.weight, weightOfAll]
      omega

theorem Improves.enter (h : Sound σ tokens m) {goal : Goal} (hcontrol : m.control = .enter goal) :
    Improves σ tokens m (m.enter σ tokens goal) := by
  have hahead : m.control.ahead = 1 := by rw [hcontrol]; rfl
  have hweight : m.control.weight = goal.weight := by rw [hcontrol]; rfl
  have hread : ∀ {k : TokenKind} {c : Control} {stack : List Frame}, front (m.rest tokens) = k →
      k ≠ .endOfInput → stack.countP Frame.isLeave = m.stack.countP Frame.isLeave →
      c ≠ .overflow →
      c.weight + weightOfAll stack < goal.weight + weightOfAll m.stack + 17 →
      Improves σ tokens m { m.advance tokens with control := c, stack } := by
    intro k c stack hk hne hlevels hrunning hload
    rw [State.advance, if_neg (hk ▸ hne)]
    have hrounds := Nat.add_le_add_left (Nat.le_of_eq hahead) m.rounds
    refine .moving h (hk ▸ hne) rfl rfl hrounds hlevels hrunning ?_
    rwa [State.load, State.load, hweight]
  cases goal with
  | row l =>
    have hlt := Goal.weight_between_lt l
    refine .standing h rfl rfl rfl ?_ nofun (Nat.le_of_eq hahead) ?_
    · simp [State.enter, Frame.isLeave]
    · rw [State.load, State.load, hweight]
      simp only [State.enter, Control.weight, Frame.weight, weightOfAll]
      omega
  | term =>
    rw [State.enter]
    split
    · next hnot =>
      refine hread (TokenKind.eq_of_isKeyword hnot) nofun (by simp [Frame.isLeave]) nofun ?_
      simp only [Control.weight, Goal.weight, Frame.weight, weightOfAll]
      omega
    · refine .standing h rfl rfl rfl rfl nofun (Nat.le_of_eq hahead) ?_
      rw [State.load, State.load, hweight]
      simp only [Control.weight, Goal.weight]
      omega
  | operand =>
    have hfail : ∀ e : EvalError, Improves σ tokens m { m with control := .raise e } :=
      fun e ↦ .fail h (by rw [hweight]; decide) e (by omega)
    -- the token that is read pays for a value, for what follows a name, and for a group
    have hvalue : ∀ {k : TokenKind} {c : Control}, front (m.rest tokens) = k → k ≠ .endOfInput →
        c ≠ .overflow → c.weight ≤ 17 →
        Improves σ tokens m { m.advance tokens with control := c } := by
      intro k c hk hne hrunning hle
      refine hread hk hne (by rw [State.advance_stack]) hrunning ?_
      rw [State.advance_stack, Goal.weight]
      omega
    rw [State.enter]
    cases hfront : front (m.rest tokens)
    case number x => exact hvalue hfront nofun nofun (Nat.le_succ 16)
    case text x => exact hvalue hfront nofun nofun (Nat.le_succ 16)
    case boolean x => exact hvalue hfront nofun nofun (Nat.le_succ 16)
    case openParen =>
      refine hread hfront nofun (by simp [Frame.isLeave]) nofun ?_
      simp only [Control.weight, Goal.weight, Frame.weight, weightOfAll]
      omega
    case identifier name =>
      exact hvalue hfront nofun nofun (Nat.le_refl 17)
    all_goals exact hfail _

/-- A result of a look-up or a call is a value or an error. -/
theorem Improves.answer (h : Sound σ tokens m) (hahead : m.control.ahead = 0)
    (hweight : 16 < m.control.weight) (r : Run Value) : Improves σ tokens m (m.answer r) := by
  unfold State.answer
  cases r.result with
  | ok v =>
    exact .standing h rfl rfl rfl rfl nofun (hahead ▸ Nat.zero_le _)
      (Nat.add_lt_add_right hweight _)
  | error e =>
    exact .standing h rfl rfl rfl rfl nofun (hahead ▸ Nat.zero_le _)
      (Nat.add_lt_add_right (Nat.zero_lt_of_lt hweight) _)

theorem Improves.named (h : Sound σ tokens m) {name : String} {offset : Nat}
    (hcontrol : m.control = .named name offset) :
    Improves σ tokens m (m.named σ tokens name offset) := by
  have hahead : m.control.ahead = 0 := by rw [hcontrol]; rfl
  have hweight : m.control.weight = 17 := by rw [hcontrol]; rfl
  unfold State.named
  split
  · next hfront =>
    have hne : front (m.rest tokens) ≠ .endOfInput := by simp [hfront]
    have hrounds := Nat.add_le_add_left (Nat.le_succ_of_le (Nat.le_of_eq hahead)) m.rounds
    rw [State.advance, if_neg hne]
    refine .moving h hne rfl rfl hrounds rfl nofun ?_
    rw [State.load, State.load, hweight]
    simp only [Control.weight]
    omega
  · exact .answer h hahead (by omega) _

theorem Improves.arguments (h : Sound σ tokens m) {name : String} {offset : Nat} {vs : List Value}
    (hcontrol : m.control = .arguments name offset vs) :
    Improves σ tokens m (m.arguments σ tokens name offset vs) := by
  have hahead : m.control.ahead = 0 := by rw [hcontrol]; rfl
  have hweight : m.control.weight = 17 := by rw [hcontrol]; rfl
  unfold State.arguments
  split
  · refine .close h (Nat.le_refl _) hahead (by omega) fun m₁ h₁ hcontrol₁ _ hle ↦ ?_
    have hanswer := Improves.answer h₁ (hcontrol₁ ▸ hahead) (by rw [hcontrol₁, hweight]; decide)
      (σ.scope.call m₁.skipping name vs offset)
    exact hanswer.of_le hle
  · next hends =>
    -- the round is ahead of the cursor until the first token of the argument is read
    have hne : front (m.rest tokens) ≠ .endOfInput := fun hfront ↦ hends (by rw [hfront]; rfl)
    have hlt := lt_markerIndex h.cursor_le hne
    have hrounds := h.rounds_le_cursor
    rw [hahead] at hrounds
    constructor
    · constructor
      · exact h.cursor_le
      · simp only [h.depth_eq, List.countP_cons, Frame.isLeave]
        rfl
      · exact h.depth_le
      · exact nofun
      · exact Nat.lt_of_le_of_lt hrounds hlt
      · exact Nat.succ_le_succ hrounds
    · rw [potential, potential, State.load, State.load, hweight]
      simp only [Control.weight, Goal.weight, Frame.weight, weightOfAll]
      omega

/-- A level is closed: the frame that was put on the stack for it is still there, so the depth is
not zero. -/
theorem Improves.leave (h : Sound σ tokens m) {c : Control} {K : List Frame}
    (hstack : m.stack = .leave :: K) (hrunning : c ≠ .overflow)
    (hahead : m.control.ahead ≤ c.ahead) (hweight : c.weight ≤ m.control.weight) :
    ∃ depth, decrement? m.depth = some depth ∧
      Improves σ tokens m { m with control := c, stack := K, depth } := by
  have hdepth := h.depth_eq
  rw [hstack, List.countP_cons_of_pos rfl] at hdepth
  refine ⟨K.countP Frame.isLeave, by rw [hdepth]; rfl, ?_⟩
  constructor
  · constructor
    · exact h.cursor_le
    · rfl
    · have hle := h.depth_le
      rw [hdepth] at hle
      exact Nat.le_of_succ_le hle
    · exact hrunning
    · exact h.rounds_le
    · exact Nat.le_trans h.rounds_le_cursor (Nat.add_le_add_left hahead _)
  · rw [potential, potential, State.load, State.load, hstack, weightOfAll]
    simp only [Frame.weight]
    omega

/-- Any other frame leaves the stack behind a value or an error. -/
theorem Improves.pop (h : Sound σ tokens m) {c : Control} {f : Frame} {K K' : List Frame}
    {skipping : Bool} (hstack : m.stack = f :: K) (hf : f.isLeave = false)
    (hlevels : K'.countP Frame.isLeave = K.countP Frame.isLeave) (hrunning : c ≠ .overflow)
    (hahead : m.control.ahead ≤ c.ahead)
    (hweight : c.weight + weightOfAll K'
      < m.control.weight + f.weight + weightOfAll K) :
    Improves σ tokens m { m with control := c, stack := K', skipping } := by
  refine .standing h rfl rfl rfl ?_ hrunning hahead ?_
  · rw [hstack, List.countP_cons_of_neg (by simp [hf])]
    exact hlevels
  · rw [State.load, State.load, hstack, weightOfAll, ← Nat.add_assoc]
    exact hweight

theorem weight_rightOperand_le (l : Level) (j : Joint) (left : Value) :
    (State.rightOperand σ l j left).weight ≤ 12 := by
  cases l <;> simp [State.rightOperand, Control.weight, Goal.between, Goal.weight]

theorem rightOperand_ne_overflow (l : Level) (j : Joint) (left : Value) :
    State.rightOperand σ l j left ≠ .overflow := by
  cases l <;> simp [State.rightOperand]

theorem Improves.resume (h : Sound σ tokens m) {v : Value} {f : Frame} {K : List Frame}
    (hcontrol : m.control = .resume v) (hstack : m.stack = f :: K) :
    Improves σ tokens m (m.resume σ tokens v K f) := by
  have hahead : m.control.ahead = 0 := by rw [hcontrol]; rfl
  have hweight : m.control.weight = 16 := by rw [hcontrol]; rfl
  have hpop : ∀ {c : Control} {K' : List Frame} {skipping : Bool}, f.isLeave = false →
      K'.countP Frame.isLeave = K.countP Frame.isLeave → c ≠ .overflow →
      c.weight + weightOfAll K' < 16 + f.weight + weightOfAll K →
      Improves σ tokens m { m with control := c, stack := K', skipping } :=
    fun hf hlevels hrunning hlt ↦
      .pop h hstack hf hlevels hrunning (hahead ▸ Nat.zero_le _) (by rwa [hweight])
  cases f with
  | leave =>
    obtain ⟨depth, hdepth, himproves⟩ := Improves.leave (c := .resume v) h hstack nofun
      (hahead ▸ Nat.zero_le _) (Nat.le_of_eq hweight.symm)
    simp only [State.resume, hdepth]
    exact himproves
  | restore skipping =>
    exact hpop rfl rfl nofun (by simp only [Control.weight, Frame.weight]; omega)
  | joints l =>
    rw [State.resume]
    split
    · next j hj =>
      have hne : front (m.rest tokens) ≠ .endOfInput := Joint.ne_endOfInput hj
      have hle := weight_rightOperand_le (σ := σ) l j v
      rw [State.advance, if_neg hne]
      refine .moving h hne rfl rfl (Nat.le_of_eq (by rw [hahead])) ?_
        (rightOperand_ne_overflow l j v) ?_
      · simp [hstack, Frame.isLeave]
      · rw [State.load, State.load, hstack, hweight]
        simp only [Frame.weight, weightOfAll]
        omega
    · exact hpop rfl rfl nofun (by simp only [Control.weight, Frame.weight]; omega)
  | right l j left =>
    rw [State.resume]
    split
    · exact hpop rfl rfl nofun (by simp only [Control.weight, Frame.weight]; omega)
    · refine hpop rfl (by simp [Frame.isLeave]) nofun ?_
      simp only [Control.weight, Frame.weight, weightOfAll]
      omega
  | negation => exact hpop rfl rfl nofun (by simp only [Control.weight, Frame.weight]; omega)
  | group =>
    rw [State.resume]
    refine .close h (Nat.le_refl _) hahead (by omega) fun m₁ h₁ hcontrol₁ hstack₁ hle ↦ ?_
    refine Improves.of_le hle (.pop h₁ (hstack₁.trans hstack) rfl rfl nofun ?_ ?_)
    · rw [hcontrol₁, hahead]
      exact Nat.zero_le _
    · rw [hcontrol₁, hweight]
      simp only [Control.weight, Frame.weight]
      omega
  | argument name offset vs =>
    rw [State.resume]
    split
    · next hfront =>
      have hne : front (m.rest tokens) ≠ .endOfInput := by
        have hcomma : front (m.rest tokens) = .comma := hfront
        simp [hcomma]
      have hrounds := Nat.add_le_add_left (Nat.le_succ_of_le (Nat.le_of_eq hahead)) m.rounds
      rw [State.advance, if_neg hne]
      refine .moving h hne rfl rfl hrounds ?_ nofun ?_
      · simp [hstack, Frame.isLeave]
      · rw [State.load, State.load, hstack, hweight]
        simp only [Control.weight, Frame.weight, weightOfAll]
        omega
    · exact hpop rfl rfl nofun (by simp only [Control.weight, Frame.weight]; omega)

theorem Improves.raise (h : Sound σ tokens m) {e : EvalError} {f : Frame} {K : List Frame}
    (hcontrol : m.control = .raise e) (hstack : m.stack = f :: K) :
    Improves σ tokens m (m.raise e K f) := by
  have hahead : m.control.ahead = 1 := by rw [hcontrol]; rfl
  have hweight : m.control.weight = 0 := by rw [hcontrol]; rfl
  have hpop : ∀ {skipping : Bool}, f.isLeave = false →
      Improves σ tokens m { m with control := .raise e, stack := K, skipping } := by
    intro skipping hf
    refine .pop h hstack hf rfl nofun (Nat.le_of_eq hahead) ?_
    have hpos : 0 < f.weight := by cases f <;> exact Nat.succ_pos _
    rw [hweight, Control.weight]
    omega
  cases f with
  | leave =>
    obtain ⟨depth, hdepth, himproves⟩ := Improves.leave (c := .raise e) h hstack nofun
      (Nat.le_of_eq hahead) (Nat.zero_le _)
    simp only [State.raise, hdepth]
    exact himproves
  | _ => exact hpop rfl

/-- **Every step is sound and makes the measure fall**, where the limit on nesting is a machine
word. -/
theorem Improves.step (h : Sound σ tokens m) (hword : σ.options.maxDepth < wordSize)
    (hstep : step σ tokens m = some m') : Improves σ tokens m m' := by
  obtain ⟨control, stack, cursor, depth, skipping, calls, rounds⟩ := m
  cases control with
  | nest goal => exact Option.some.inj hstep ▸ .nest h rfl hword
  | skip skip goal =>
    refine Option.some.inj hstep ▸ .standing h rfl rfl rfl ?_ nofun (Nat.le_refl 1) ?_
    · simp [Frame.isLeave]
    · simp only [State.load, Control.weight, Frame.weight, weightOfAll]
      omega
  | enter goal => exact Option.some.inj hstep ▸ .enter h rfl
  | named name offset => exact Option.some.inj hstep ▸ .named h rfl
  | arguments name offset vs => exact Option.some.inj hstep ▸ .arguments h rfl
  | resume v =>
    cases stack with
    | nil => exact nomatch hstep
    | cons f K => exact Option.some.inj hstep ▸ .resume h rfl rfl
  | raise e =>
    cases stack with
    | nil => exact nomatch hstep
    | cons f K => exact Option.some.inj hstep ▸ .raise h rfl rfl
  | overflow => exact nomatch hstep

end Improves

/-! ## Whole runs -/

section Runs

variable {σ : Setting} {tokens : List Token} {k : Nat} {m m' : State}

/-- **Whatever is reached is sound, and it is reached within the measure.** -/
theorem Steps.improves (h : Steps σ tokens k m m') (hm : Sound σ tokens m)
    (hword : σ.options.maxDepth < wordSize) :
    Sound σ tokens m' ∧ k + potential tokens m' ≤ potential tokens m := by
  induction h with
  | refl m => exact ⟨hm, Nat.le_of_eq (Nat.zero_add _)⟩
  | tail _ hstep ih =>
    obtain ⟨hsound, hle⟩ := ih hm
    have himproves := Improves.step hsound hword hstep
    have hlt := himproves.lt
    exact ⟨himproves.sound, by omega⟩

/-- Where a sound state has no next one, a value or an error is all that is left. -/
theorem Sound.stopped (h : Sound σ tokens m) (hstep : step σ tokens m = none) :
    m.stack = [] ∧ ((∃ v, m.control = .resume v) ∨ ∃ e, m.control = .raise e) := by
  obtain ⟨control, stack, cursor, depth, skipping, calls, rounds⟩ := m
  cases control with
  | resume v =>
    cases stack with
    | nil => exact ⟨rfl, .inl ⟨v, rfl⟩⟩
    | cons f K => exact nomatch hstep
  | raise e =>
    cases stack with
    | nil => exact ⟨rfl, .inr ⟨e, rfl⟩⟩
    | cons f K => exact nomatch hstep
  | overflow => exact absurd rfl h.running
  | _ => exact nomatch hstep

/-- One run behind another. -/
theorem Steps.trans {k' : Nat} {m'' : State} (h : Steps σ tokens k m m')
    (h' : Steps σ tokens k' m' m'') : Steps σ tokens (k + k') m m'' := by
  induction h' with
  | refl => exact h
  | tail _ hstep ih => exact .tail (ih h) hstep

end Runs

end Machine

end Formula
