import Formula.Proofs.Tree

/-!
# Reading a tree

The grammar of expressions as a reader: tokens in, a tree and the tokens behind it out, or the first
error of form. No variable, no function and no value occurs here. What is read depends on the
tokens, on whether closing brackets are insisted on and on how deep an expression may nest, and on
nothing else.

## How deep it may go

A group, an argument and the operand of a `not` are read one level deeper than what they stand in.
The reader of the level is built from the reader one level further down (`Grammar.term`), and at
the bottom stands `tooDeep`. So the limit is what the recursion is on, and no counter is passed
along.

## Rows

Every level of joints is a row: an operand and then, as long as a joint of the level is in front,
another one. A row takes at most as many further operands as there are tokens, which is never the
reason for it to end; the row of a comparison takes at most one, and there it is.

## What a failure keeps

A failure knows what was read before it as a list of frames. `within` adds one in front where a
reader calls another in the middle of something: the left operand of a joint, the arguments that are
complete, the group whose closing bracket is missing.
-/

namespace Formula

open Formula.Tree (Frame)

/-- Why reading failed. -/
structure Failure where
  error : EvalError
  /-- What was read before, the outermost first. -/
  draft : List Frame
  /-- The tokens from the one at which the failure was noticed. -/
  unread : List Token

/-- A part that was read. -/
structure Part (α : Type) where
  value : α
  /-- The tokens behind it. -/
  rest : List Token
  /-- How many closing brackets were missing in it and were done without. -/
  missing : Nat

/-- A reader of parts. -/
def Reader (α : Type) := List Token → Except Failure (Part α)

namespace Reader

variable {α β : Type}

/-- Goes on behind a part. -/
def andThen (outcome : Except Failure (Part α)) (next : α → Reader β) : Except Failure (Part β) :=
  match outcome with
  | .ok p => (next p.value p.rest).map fun q ↦ { q with missing := p.missing + q.missing }
  | .error f => .error f

instance : Monad Reader where
  pure a := fun ts ↦ .ok ⟨a, ts, 0⟩
  bind r next := fun ts ↦ andThen (r ts) next

/-- Reads in the middle of something, of which `frames` is already complete. -/
def within (frames : List Frame) (r : Reader α) : Reader α := fun ts ↦
  (r ts).mapError fun f ↦ { f with draft := frames ++ f.draft }

/-- The token in front, or the end. -/
def front : List Token → TokenKind
  | [] => .endOfInput
  | t :: _ => t.kind

/-- The tokens behind a comma, if there is one in front. -/
def afterComma (ts : List Token) : List Token :=
  match front ts with
  | .comma => ts.tail
  | _ => ts

/-- Reads a comma if there is one. -/
def comma : Reader Unit := fun ts ↦ .ok ⟨(), afterComma ts, 0⟩

end Reader

/-! ## Rows -/

/-- The levels of joints, from the one that binds most loosely. -/
inductive Level where
  | disjunction | conjunction | comparison | sum | product
  deriving DecidableEq, Repr

namespace TokenKind

theorem eq_of_isKeyword {word : String} {k : TokenKind} (h : k.isKeyword word) :
    k = .identifier word := by
  cases k with
  | identifier name => exact congrArg identifier (beq_iff_eq.mp h)
  | _ => exact absurd h (by simp [isKeyword])

theorem eq_of_arithmetic? {k : TokenKind} {op : Arithmetic} (h : k.arithmetic? = some op) :
    k = .operator (.arithmetic op) := by
  cases k with
  | operator o =>
    cases o with
    | arithmetic op' => exact congrArg (operator ∘ .arithmetic) (Option.some.inj h)
    | _ => exact absurd h (by simp [arithmetic?, Operator.arithmetic?])
  | _ => exact absurd h (by simp [arithmetic?])

theorem eq_of_comparison? {k : TokenKind} {op : Comparison} (h : k.comparison? = some op) :
    k = .operator (.comparison op) := by
  cases k with
  | operator o =>
    cases o with
    | comparison op' => exact congrArg (operator ∘ .comparison) (Option.some.inj h)
    | _ => exact absurd h (by simp [comparison?, Operator.comparison?])
  | _ => exact absurd h (by simp [comparison?])

end TokenKind

namespace Joint

def level : Joint → Level
  | or => .disjunction
  | and => .conjunction
  | comparison _ => .comparison
  | arithmetic op => if op.isAdditive then .sum else .product

/-- The token that a joint is. -/
def mark : Joint → TokenKind
  | or => .identifier "or"
  | and => .identifier "and"
  | comparison op => .operator (.comparison op)
  | arithmetic op => .operator (.arithmetic op)

/-- The joint of a level that a token is. -/
def atLevel? : Level → TokenKind → Option Joint
  | .disjunction, k => if k.isKeyword "or" then some or else none
  | .conjunction, k => if k.isKeyword "and" then some and else none
  | .comparison, k => k.comparison?.map comparison
  | .sum, k => (k.arithmetic?.filter (·.isAdditive)).map arithmetic
  | .product, k => (k.arithmetic?.filter (!·.isAdditive)).map arithmetic

theorem atLevel?_mark (j : Joint) : atLevel? j.level j.mark = some j := by
  cases j with
  | arithmetic op => cases op <;> rfl
  | _ => rfl

/-- A token is a joint of one level, if it is one at all. -/
theorem eq_of_atLevel? {l : Level} {k : TokenKind} {j : Joint} (h : atLevel? l k = some j) :
    l = j.level ∧ k = j.mark := by
  cases l with
  | disjunction =>
    obtain ⟨hk, hj⟩ := Option.ite_none_right_eq_some.mp h
    obtain rfl := Option.some.inj hj
    exact ⟨rfl, TokenKind.eq_of_isKeyword hk⟩
  | conjunction =>
    obtain ⟨hk, hj⟩ := Option.ite_none_right_eq_some.mp h
    obtain rfl := Option.some.inj hj
    exact ⟨rfl, TokenKind.eq_of_isKeyword hk⟩
  | comparison =>
    obtain ⟨op, hop, rfl⟩ := Option.map_eq_some_iff.mp h
    exact ⟨rfl, TokenKind.eq_of_comparison? hop⟩
  | sum =>
    obtain ⟨op, hop, rfl⟩ := Option.map_eq_some_iff.mp h
    obtain ⟨hop, hadditive⟩ := Option.filter_eq_some_iff.mp hop
    exact ⟨(if_pos hadditive).symm, TokenKind.eq_of_arithmetic? hop⟩
  | product =>
    obtain ⟨op, hop, rfl⟩ := Option.map_eq_some_iff.mp h
    obtain ⟨hop, hadditive⟩ := Option.filter_eq_some_iff.mp hop
    refine ⟨(if_neg ?_).symm, TokenKind.eq_of_arithmetic? hop⟩
    simpa using hadditive

/-- The end is no joint. -/
theorem ne_endOfInput {l : Level} {k : TokenKind} {j : Joint} (h : atLevel? l k = some j) :
    k ≠ .endOfInput := by
  obtain ⟨-, rfl⟩ := eq_of_atLevel? h
  cases j <;> simp [mark]

/-- Only at the two loosest levels does a left operand decide. -/
theorem isDecidedBy_eq_false {l : Level} {k : TokenKind} {j : Joint} (h : atLevel? l k = some j)
    (hl : l ≠ .disjunction) (hl' : l ≠ .conjunction) (v : Value) : j.isDecidedBy v = false := by
  obtain ⟨rfl, -⟩ := eq_of_atLevel? h
  cases j with
  | or => exact absurd rfl hl
  | and => exact absurd rfl hl'
  | comparison op => rfl
  | arithmetic op => rfl

end Joint

namespace Reader

/-- At most `n` further operands behind the ones of which `left` was made. -/
def rowFrom (l : Level) (operand : Reader Tree) : Nat → Tree → Reader Tree
  | 0, left => pure left
  | n + 1, left => fun ts ↦
    match Joint.atLevel? l (front ts) with
    | some j => (do
        let right ← within [.right j left] operand
        rowFrom l operand n (.joined j left right)) ts.tail
    | none => .ok ⟨left, ts, 0⟩

/-- Operands with joints of one level between them. -/
def row (l : Level) (operand : Reader Tree) : Reader Tree := fun ts ↦
  (do
    let left ← operand
    rowFrom l operand ts.length left) ts

/-- Whether a token ends a list of arguments. -/
def endsArguments : TokenKind → Bool
  | .closeParen | .endOfInput => true
  | _ => false

/-- At most `n` arguments, up to a closing bracket or the end. -/
def arguments (argument : Reader Tree) : Nat → Reader (List Tree)
  | 0 => pure []
  | n + 1 => fun ts ↦
    if endsArguments (front ts) then .ok ⟨[], ts, 0⟩
    else (do
      let first ← argument
      comma
      let others ← within [.after first] (arguments argument n)
      return first :: others) ts

end Reader

/-! ## The grammar -/

open Reader

/-- What reading depends on beside the tokens. -/
structure Grammar where
  strict : Bool
  maxDepth : Nat
  /-- The offset at which the tokens end. -/
  endOffset : Nat

namespace Grammar

variable {α : Type} (g : Grammar)

/-- The offset of the token in front. -/
def position : List Token → Nat
  | [] => g.endOffset
  | t :: _ => t.offset

/-- Fails because the token in front is none that an operand begins with. -/
def refuse : Reader α := fun ts ↦ .error ⟨.unexpectedToken (front ts) (g.position ts), [], ts⟩

/-- Fails because nothing may nest any deeper. -/
def tooDeep : Reader α := fun ts ↦ .error ⟨.depthExceeded g.maxDepth (g.position ts), [], ts⟩

/-- Reads a closing bracket, or does without one. -/
def closing : Reader Unit := fun ts ↦
  match front ts with
  | .closeParen => .ok ⟨(), ts.tail, 0⟩
  | _ => if g.strict then .error ⟨.unclosedParen (g.position ts), [], ts⟩ else .ok ⟨(), ts, 1⟩

/-- An operand, in which groups and arguments are read by `group`. -/
def operand (group : Reader Tree) : Reader Tree := fun ts ↦
  match front ts with
  | .number x => .ok ⟨.literal (.number x), ts.tail, 0⟩
  | .text s => .ok ⟨.literal (.text s), ts.tail, 0⟩
  | .boolean b => .ok ⟨.literal (.boolean b), ts.tail, 0⟩
  | .openParen => (do
      let t ← group
      within [.after t] g.closing
      return t) ts.tail
  | .identifier name =>
    match front ts.tail with
    | .openParen => (do
        let as ← arguments group ts.length
        within (as.map .after) g.closing
        return Tree.call name as (g.position ts)) ts.tail.tail
    | _ => .ok ⟨.named name (g.position ts), ts.tail, 0⟩
  | _ => g.refuse ts

/-- Products joined to a sum. -/
def sum (group : Reader Tree) : Reader Tree := row .sum (row .product (g.operand group))

/-- A sum, or two that are compared. -/
def comparison (group : Reader Tree) : Reader Tree := do
  let left ← g.sum group
  rowFrom .comparison (g.sum group) 1 left

/-- A comparison, or a `not` and what `negated` reads. -/
def termOver (negated group : Reader Tree) : Reader Tree := fun ts ↦
  if (front ts).isKeyword "not" then (do
    let t ← negated
    return Tree.not t) ts.tail
  else g.comparison group ts

/-- Terms joined by `and`, and these by `or`. -/
def expressionOver (term : Reader Tree) : Reader Tree := row .disjunction (row .conjunction term)

/-- A term inside of which `depth` more levels may be opened. -/
def term : Nat → Reader Tree
  | 0 => g.termOver g.tooDeep g.tooDeep
  | depth + 1 => g.termOver (term depth) (expressionOver (term depth))

/-- What a `not` negates, one of `depth` levels deeper. -/
def negated : Nat → Reader Tree
  | 0 => g.tooDeep
  | depth + 1 => g.term depth

/-- An expression, one of `depth` levels deeper than what it stands in. -/
def expression : Nat → Reader Tree
  | 0 => g.tooDeep
  | depth + 1 => expressionOver (g.term depth)

theorem term_eq (depth : Nat) :
    g.term depth = g.termOver (g.negated depth) (g.expression depth) := by
  cases depth <;> rfl

/-- Nothing is left behind an expression, unless leftovers are ignored. -/
def ending : Reader Unit := fun ts ↦
  match ts with
  | [] => .ok ⟨(), [], 0⟩
  | t :: _ =>
    if g.strict then .error ⟨.trailingTokens t.kind t.offset, [], ts⟩ else .ok ⟨(), ts, 0⟩

end Grammar

/-- Reads the tree of a whole list of tokens. What is behind its first end marker does not count. -/
def Tree.read (tokens : List Token) (strict : Bool) (maxDepth : Nat) :
    Except Failure (Part Tree) :=
  let g : Grammar := ⟨strict, maxDepth, endOffset tokens⟩
  (do
    let t ← g.expression maxDepth
    within [.after t] g.ending
    return t) (beforeEnd tokens)

/-! ## How much is read -/

namespace Reader

variable {α β : Type}

/-- What a reader leaves is an end of what it was given. -/
def Keeps (r : Reader α) : Prop := ∀ ts p, r ts = .ok p → p.rest <:+ ts

/-- A reader takes at least one token. -/
def Advances (r : Reader α) : Prop := ∀ ts p, r ts = .ok p → ts ≠ [] ∧ p.rest <:+ ts.tail

theorem bind_apply (r : Reader α) (next : α → Reader β) (ts : List Token) :
    (r >>= next) ts = andThen (r ts) next := rfl

@[simp] theorem pure_apply (a : α) (ts : List Token) :
    (pure a : Reader α) ts = .ok ⟨a, ts, 0⟩ := rfl

@[simp] theorem andThen_error (f : Failure) (next : α → Reader β) :
    andThen (.error f) next = .error f := rfl

theorem andThen_ok (p : Part α) (next : α → Reader β) : andThen (.ok p) next
    = (next p.value p.rest).map fun q ↦ { q with missing := p.missing + q.missing } := rfl

/-- Behind a part in which nothing was missing, it is as if reading began there. -/
@[simp] theorem andThen_ok_zero (a : α) (ts : List Token) (next : α → Reader β) :
    andThen (.ok ⟨a, ts, 0⟩) next = next a ts := by
  rw [andThen_ok]
  cases next a ts with
  | error f => rfl
  | ok q => simp [Except.map]

theorem andThen_eq_ok {outcome : Except Failure (Part α)} {next : α → Reader β} {q : Part β}
    (h : andThen outcome next = .ok q) : ∃ p q', outcome = .ok p ∧
      next p.value p.rest = .ok q' ∧ q = { q' with missing := p.missing + q'.missing } := by
  cases outcome with
  | error f => exact absurd h (by simp)
  | ok p =>
    rw [andThen_ok] at h
    cases hnext : next p.value p.rest with
    | error f => rw [hnext] at h; exact absurd h (by simp [Except.map])
    | ok q' =>
      rw [hnext] at h
      exact ⟨p, q', rfl, hnext, (Except.ok.inj h).symm⟩

theorem within_of_ok {r : Reader α} {ts : List Token} {p : Part α} (frames : List Frame)
    (h : r ts = .ok p) : within frames r ts = .ok p := by
  rw [within, h]
  rfl

/-- In the middle of something, a failure also keeps what is complete. -/
theorem within_of_error {r : Reader α} {ts : List Token} {f : Failure} (frames : List Frame)
    (h : r ts = .error f) :
    within frames r ts = .error { f with draft := frames ++ f.draft } := by
  rw [within, h]
  rfl

@[simp] theorem within_nil (r : Reader α) : within [] r = r := by
  funext ts
  unfold within
  cases r ts <;> rfl

theorem rowFrom_joint {l : Level} {operand : Reader Tree} {n : Nat} {left : Tree}
    {ts : List Token} {j : Joint} (h : Joint.atLevel? l (front ts) = some j) :
    rowFrom l operand (n + 1) left ts = (do
      let right ← within [.right j left] operand
      rowFrom l operand n (.joined j left right)) ts.tail := by
  simp only [rowFrom, h]

theorem rowFrom_end {l : Level} {operand : Reader Tree} {n : Nat} {left : Tree}
    {ts : List Token} (h : Joint.atLevel? l (front ts) = none) :
    rowFrom l operand n left ts = .ok ⟨left, ts, 0⟩ := by
  cases n with
  | zero => rfl
  | succ n => simp only [rowFrom, h]

theorem arguments_end {argument : Reader Tree} {n : Nat} {ts : List Token}
    (h : endsArguments (front ts)) : arguments argument n ts = .ok ⟨[], ts, 0⟩ := by
  cases n with
  | zero => rfl
  | succ n => simp only [arguments, h, if_true]

theorem arguments_more {argument : Reader Tree} {n : Nat} {ts : List Token}
    (h : ¬endsArguments (front ts)) : arguments argument (n + 1) ts = (do
      let first ← argument
      comma
      let others ← within [.after first] (arguments argument n)
      return first :: others) ts :=
  if_neg h

theorem within_eq_ok {frames : List Frame} {r : Reader α} {ts : List Token} {p : Part α} :
    within frames r ts = .ok p ↔ r ts = .ok p := by
  cases hr : r ts with
  | error f => simp [within_of_error frames hr]
  | ok q => rw [within_of_ok frames hr]

theorem Advances.keeps {r : Reader α} (h : r.Advances) : r.Keeps :=
  fun ts p hp ↦ (h ts p hp).2.trans (List.tail_suffix ts)

theorem Advances.length_lt {r : Reader α} (h : r.Advances) {ts : List Token} {p : Part α}
    (hp : r ts = .ok p) : p.rest.length < ts.length := by
  obtain ⟨hne, hrest⟩ := h ts p hp
  have hle := hrest.length_le
  have hpos := List.length_pos_iff.mpr hne
  rw [List.length_tail] at hle
  omega

theorem keeps_pure (a : α) : (pure a : Reader α).Keeps := by
  intro ts p hp
  obtain rfl : ⟨a, ts, 0⟩ = p := by simpa using hp
  exact List.suffix_refl ts

theorem Keeps.bind {r : Reader α} {next : α → Reader β} (hr : r.Keeps)
    (hnext : ∀ a, (next a).Keeps) : (r >>= next).Keeps := by
  intro ts q hq
  obtain ⟨p, q', hp, hq', rfl⟩ := andThen_eq_ok hq
  exact (hnext _ _ _ hq').trans (hr _ _ hp)

theorem Advances.bind {r : Reader α} {next : α → Reader β} (hr : r.Advances)
    (hnext : ∀ a, (next a).Keeps) : (r >>= next).Advances := by
  intro ts q hq
  obtain ⟨p, q', hp, hq', rfl⟩ := andThen_eq_ok hq
  obtain ⟨hne, hrest⟩ := hr _ _ hp
  exact ⟨hne, (hnext _ _ _ hq').trans hrest⟩

theorem Keeps.within {r : Reader α} (h : r.Keeps) (frames : List Frame) :
    (within frames r).Keeps :=
  fun ts p hp ↦ h ts p (within_eq_ok.mp hp)

/-- A reader that is called behind the token in front takes one more. -/
theorem Keeps.advances_tail {r : Reader α} (h : r.Keeps) {ts : List Token} {p : Part α}
    (hts : ts ≠ []) (hp : r ts.tail = .ok p) : ts ≠ [] ∧ p.rest <:+ ts.tail :=
  ⟨hts, h _ _ hp⟩

theorem ne_nil_of_front {ts : List Token} {k : TokenKind} (h : front ts = k)
    (hk : k ≠ .endOfInput) : ts ≠ [] := by
  rintro rfl
  exact hk h.symm

theorem afterComma_suffix (ts : List Token) : afterComma ts <:+ ts := by
  unfold afterComma
  split
  · exact List.tail_suffix ts
  · exact List.suffix_refl ts

theorem keeps_comma : comma.Keeps := by
  intro ts p hp
  obtain rfl := Except.ok.inj hp
  exact afterComma_suffix ts

theorem keeps_rowFrom (l : Level) {operand : Reader Tree} (h : operand.Keeps) (n : Nat) :
    ∀ left : Tree, (rowFrom l operand n left).Keeps := by
  induction n with
  | zero => exact fun left ↦ keeps_pure left
  | succ n ih =>
    intro left ts p hp
    cases hj : Joint.atLevel? l (front ts) with
    | some j =>
      rw [rowFrom_joint hj] at hp
      exact (((h.within _).bind fun right ↦ ih _) _ _ hp).trans (List.tail_suffix ts)
    | none =>
      rw [rowFrom_end hj] at hp
      obtain rfl := Except.ok.inj hp
      exact List.suffix_refl ts

theorem advances_row (l : Level) {operand : Reader Tree} (h : operand.Advances) :
    (row l operand).Advances :=
  fun ts p hp ↦ (h.bind fun left ↦ keeps_rowFrom l h.keeps ts.length left) ts p hp

theorem keeps_arguments {argument : Reader Tree} (h : argument.Keeps) (n : Nat) :
    (arguments argument n).Keeps := by
  induction n with
  | zero => exact keeps_pure []
  | succ n ih =>
    intro ts p hp
    by_cases hends : endsArguments (front ts)
    · rw [arguments_end hends] at hp
      obtain rfl := Except.ok.inj hp
      exact List.suffix_refl ts
    · rw [arguments_more hends] at hp
      refine (h.bind fun first ↦ keeps_comma.bind fun _ ↦ ?_) ts p hp
      exact (ih.within _).bind fun others ↦ keeps_pure _

end Reader

namespace Grammar

variable (g : Grammar)

theorem keeps_closing : g.closing.Keeps := by
  intro ts p hp
  unfold closing at hp
  split at hp
  · obtain rfl := Except.ok.inj hp
    exact List.tail_suffix ts
  · split at hp
    · exact absurd hp (by simp)
    · obtain rfl := Except.ok.inj hp
      exact List.suffix_refl ts

theorem keeps_ending : g.ending.Keeps := by
  intro ts p hp
  unfold ending at hp
  split at hp
  · obtain rfl := Except.ok.inj hp
    exact List.suffix_refl _
  · split at hp
    · exact absurd hp (by simp)
    · obtain rfl := Except.ok.inj hp
      exact List.suffix_refl _

theorem advances_tooDeep : (g.tooDeep : Reader Tree).Advances :=
  fun ts p hp ↦ absurd hp (by simp [tooDeep])

theorem advances_operand {group : Reader Tree} (h : group.Keeps) :
    (g.operand group).Advances := by
  intro ts p hp
  have hliteral : ∀ {k : TokenKind} {t : Tree}, front ts = k → k ≠ .endOfInput →
      (.ok ⟨t, ts.tail, 0⟩ : Except Failure (Part Tree)) = .ok p →
      ts ≠ [] ∧ p.rest <:+ ts.tail := by
    intro k t hk hne heq
    obtain rfl := Except.ok.inj heq
    exact ⟨ne_nil_of_front hk hne, List.suffix_refl _⟩
  unfold operand at hp
  split at hp
  · next hfront => exact hliteral hfront (by simp) hp
  · next hfront => exact hliteral hfront (by simp) hp
  · next hfront => exact hliteral hfront (by simp) hp
  · next hfront =>
    refine Keeps.advances_tail (h.bind fun t ↦ ?_) (ne_nil_of_front hfront (by simp)) hp
    exact ((g.keeps_closing).within _).bind fun _ ↦ keeps_pure t
  · next name hfront =>
    have hne := ne_nil_of_front hfront (by simp)
    split at hp
    · have hcall : ∀ as : List Tree, (do
          within (as.map .after) g.closing
          return Tree.call name as (g.position ts)).Keeps := fun as ↦
        ((g.keeps_closing).within _).bind fun _ ↦ keeps_pure _
      have hrest := ((keeps_arguments h ts.length).bind hcall) _ _ hp
      exact ⟨hne, hrest.trans (List.tail_suffix _)⟩
    · exact hliteral hfront (by simp) hp
  · exact absurd hp (by simp [refuse])

theorem advances_sum {group : Reader Tree} (h : group.Keeps) : (g.sum group).Advances :=
  advances_row _ (advances_row _ (g.advances_operand h))

theorem advances_comparison {group : Reader Tree} (h : group.Keeps) :
    (g.comparison group).Advances :=
  (g.advances_sum h).bind fun left ↦ keeps_rowFrom _ (g.advances_sum h).keeps 1 left

theorem advances_termOver {negated group : Reader Tree} (hn : negated.Keeps) (h : group.Keeps) :
    (g.termOver negated group).Advances := by
  intro ts p hp
  unfold termOver at hp
  split at hp
  · next hnot =>
    have hne := ne_nil_of_front (TokenKind.eq_of_isKeyword hnot) (by simp)
    exact Keeps.advances_tail (hn.bind fun t ↦ keeps_pure _) hne hp
  · exact g.advances_comparison h ts p hp

theorem advances_expressionOver {term : Reader Tree} (h : term.Advances) :
    (expressionOver term).Advances :=
  advances_row _ (advances_row _ h)

theorem advances_term (depth : Nat) : (g.term depth).Advances := by
  induction depth with
  | zero => exact g.advances_termOver g.advances_tooDeep.keeps g.advances_tooDeep.keeps
  | succ depth ih => exact g.advances_termOver ih.keeps (advances_expressionOver ih).keeps

/-- **An expression takes at least one token.** -/
theorem advances_expression (depth : Nat) : (g.expression depth).Advances := by
  cases depth with
  | zero => exact g.advances_tooDeep
  | succ depth => exact advances_expressionOver (g.advances_term depth)

end Grammar

/-! ## Counts

A row and a list of arguments are given a count of how many there may be. It covers the tokens, and
any other count that does would do. -/

namespace Reader

/-- Where arguments end, rows do. -/
theorem atLevel?_of_endsArguments {l : Level} {k : TokenKind} (h : endsArguments k) :
    Joint.atLevel? l k = none := by
  cases k with
  | closeParen | endOfInput => cases l <;> rfl
  | _ => exact absurd h (by simp [endsArguments])

theorem rowFrom_count (l : Level) {operand : Reader Tree} (h : operand.Keeps) (n : Nat) :
    ∀ (n' : Nat) (left : Tree) (ts : List Token), ts.length ≤ n → ts.length ≤ n' →
      rowFrom l operand n left ts = rowFrom l operand n' left ts := by
  induction n with
  | zero =>
    intro n' left ts hn _
    obtain rfl := List.eq_nil_of_length_eq_zero (Nat.le_zero.mp hn)
    rw [rowFrom_end (atLevel?_of_endsArguments rfl), rowFrom_end (atLevel?_of_endsArguments rfl)]
  | succ n ih =>
    intro n' left ts hn hn'
    cases hj : Joint.atLevel? l (front ts) with
    | none => rw [rowFrom_end hj, rowFrom_end hj]
    | some j =>
      have hlength := List.length_pos_iff.mpr (ne_nil_of_front rfl (Joint.ne_endOfInput hj))
      have htail := List.length_tail (l := ts)
      obtain ⟨n', rfl⟩ : ∃ m, n' = m + 1 := ⟨n' - 1, by omega⟩
      rw [rowFrom_joint hj, rowFrom_joint hj, bind_apply, bind_apply]
      cases hp : within [.right j left] operand ts.tail with
      | error f => rfl
      | ok p =>
        have hle := (h.within _ _ _ hp).length_le
        rw [andThen_ok, andThen_ok, ih n' _ p.rest (by omega) (by omega)]

theorem row_eq (l : Level) {operand : Reader Tree} (h : operand.Keeps) {ts : List Token} {n : Nat}
    (hn : ts.length ≤ n) : row l operand ts = (operand >>= rowFrom l operand n) ts := by
  rw [row, bind_apply, bind_apply]
  cases hp : operand ts with
  | error f => rfl
  | ok p =>
    have hle := (h ts p hp).length_le
    rw [andThen_ok, andThen_ok, rowFrom_count l h _ n _ _ hle (by omega)]

theorem arguments_count {argument : Reader Tree} (h : argument.Advances) (n : Nat) :
    ∀ (n' : Nat) (ts : List Token), ts.length ≤ n → ts.length ≤ n' →
      arguments argument n ts = arguments argument n' ts := by
  induction n with
  | zero =>
    intro n' ts hn _
    obtain rfl := List.eq_nil_of_length_eq_zero (Nat.le_zero.mp hn)
    rw [arguments_end rfl, arguments_end rfl]
  | succ n ih =>
    intro n' ts hn hn'
    by_cases hends : endsArguments (front ts)
    · rw [arguments_end hends, arguments_end hends]
    · have hlength : 0 < ts.length := by
        refine List.length_pos_iff.mpr fun hnil ↦ hends ?_
        rw [hnil]
        rfl
      obtain ⟨n', rfl⟩ : ∃ m, n' = m + 1 := ⟨n' - 1, by omega⟩
      rw [arguments_more hends, arguments_more hends, bind_apply, bind_apply]
      cases hp : argument ts with
      | error f => rfl
      | ok p =>
        have hlt := h.length_lt hp
        have hcomma := (afterComma_suffix p.rest).length_le
        have hothers := ih n' (afterComma p.rest) (by omega) (by omega)
        simp only [andThen_ok, bind_apply, comma, within, hothers]

end Reader

end Formula
