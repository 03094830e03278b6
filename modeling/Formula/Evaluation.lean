import Formula.Error
import Formula.Function
import Formula.Options

/-!
# Evaluating tokens

A list of tokens is evaluated while it is read: every level of the grammar reads its part from the
tokens in front and computes its value on the way, so no tree is built. From the loosest level to
the tightest the grammar is

* an expression: conditions joined by `or`, each of them terms joined by `and`;
* a term: any number of `not` in front of a comparison;
* a comparison: one sum, or two with a comparison operator between them;
* a sum of products, a product of operands, both from the left;
* an operand: a literal, an expression in brackets, a name, or a name with arguments in brackets.

## What is read

The tokens behind the first end marker are never looked at, so they are dropped at the start and
what remains has no marker in it: the end is where no token is left. A list without a marker ends at
the offset of its last token.

## Passing over

An operand that short-circuiting passes over is read like any other, with the same errors in its
form, but its names are not looked up and its calls are not made: they count as `false`. What is
read next never depends on a value, so passing over stops where evaluating would.

## The budget

The levels call each other without reading a token in between, and a loop calls a level that reads
at least one, so no single argument of these functions falls at every call. A budget does: it is one
less at each call, and `budgetFor` gives eight for each token, one for each level between two
tokens. At the end of a budget a level refuses the token in front of it.
-/

namespace Formula

/-! ## Settings and state -/

/-- What stays the same throughout an evaluation. -/
structure Setting where
  bindings : Table Value
  functions : Table Callable
  options : Options
  /-- The offset at which the tokens end. -/
  endOffset : Nat

/-- What changes in the course of an evaluation. -/
structure Progress where
  /-- The tokens not yet read. -/
  rest : List Token
  /-- How many levels of nesting are open. -/
  depth : Nat := 0
  /-- Whether operands are being passed over. -/
  skipping : Bool := false
  /-- The calls of host functions so far, in order. -/
  calls : List Call := []

/-- A step of an evaluation. A failed step leaves the state in which it failed. -/
abbrev Step (α : Type) := EStateM EvalError Progress α

namespace Step

/-- The token in front. -/
def peek : Step TokenKind := do
  return match (← get).rest with
    | [] => .endOfInput
    | t :: _ => t.kind

/-- The offset of the token in front. -/
def position (σ : Setting) : Step Nat := do
  return match (← get).rest with
    | [] => σ.endOffset
    | t :: _ => t.offset

/-- Reads the token in front. -/
def advance : Step Unit := modify fun s ↦ { s with rest := s.rest.tail }

/-- Fails because a value is needed where the token in front stands. -/
def refuse {α : Type} (σ : Setting) : Step α := do
  throw (.unexpectedToken (← peek) (← position σ))

/-- Takes a step one level of nesting deeper. -/
def nested {α : Type} (σ : Setting) (step : Step α) : Step α := do
  if σ.options.maxDepth ≤ (← get).depth then
    throw (.depthExceeded σ.options.maxDepth (← position σ))
  modify fun s ↦ { s with depth := s.depth + 1 }
  let a ← step
  modify fun s ↦ { s with depth := s.depth - 1 }
  return a

/-- Takes a step in which operands are passed over if `skip` says so or they were before. -/
def skippingIf {α : Type} (skip : Bool) (step : Step α) : Step α := do
  let before := (← get).skipping
  modify fun s ↦ { s with skipping := before || skip }
  let a ← step
  modify fun s ↦ { s with skipping := before }
  return a

/-- Reads a closing bracket. Only strict evaluation insists on it. -/
def closeParen (σ : Setting) : Step Unit := do
  match ← peek with
  | .closeParen => advance
  | _ => if σ.options.strict then throw (.unclosedParen (← position σ))

/-- The value of a variable whose name stands at `offset`. -/
def lookUp (σ : Setting) (name : String) (offset : Nat) : Step Value := do
  if (← get).skipping then return .boolean false
  match σ.bindings.get? name with
  | some v => return v
  | none => throw (.undefinedVariable name offset)

/-- The value of a call of the function whose name stands at `offset`. -/
def call (σ : Setting) (name : String) (arguments : List Value) (offset : Nat) : Step Value := do
  if (← get).skipping then return .boolean false
  match σ.functions.get? name with
  | some f =>
    if f.isHost then modify fun s ↦ { s with calls := s.calls ++ [⟨name, arguments⟩] }
    return f.apply arguments
  | none => throw (.undefinedFunction name offset)

/-! ## The levels of the grammar -/

mutual

/-- An expression, one level deeper than what it stands in. -/
def expression (σ : Setting) : Nat → Step Value
  | 0 => refuse σ
  | n + 1 => nested σ do
    let left ← condition σ n
    conditionsFrom σ n left

/-- The conditions that `or` joins to the one before them. -/
def conditionsFrom (σ : Setting) : Nat → Value → Step Value
  | 0, _ => refuse σ
  | n + 1, left => do
    if (← peek).isKeyword "or" then
      advance
      let decided := left.isTruthy
      let right ← skippingIf (σ.options.shortCircuit && decided) (condition σ n)
      conditionsFrom σ n (.boolean (decided || right.isTruthy))
    else return left

/-- A condition: terms joined by `and`. -/
def condition (σ : Setting) : Nat → Step Value
  | 0 => refuse σ
  | n + 1 => do
    let left ← term σ n
    termsFrom σ n left

/-- The terms that `and` joins to the one before them. -/
def termsFrom (σ : Setting) : Nat → Value → Step Value
  | 0, _ => refuse σ
  | n + 1, left => do
    if (← peek).isKeyword "and" then
      advance
      let decided := !left.isTruthy
      let right ← skippingIf (σ.options.shortCircuit && decided) (term σ n)
      termsFrom σ n (.boolean (!decided && right.isTruthy))
    else return left

/-- A term: a comparison behind any number of `not`, each of which nests one level deeper. -/
def term (σ : Setting) : Nat → Step Value
  | 0 => refuse σ
  | n + 1 => do
    if (← peek).isKeyword "not" then
      advance
      let v ← nested σ (term σ n)
      return .boolean (!v.isTruthy)
    else comparison σ n

/-- A comparison. A second comparison operator is left for what comes behind. -/
def comparison (σ : Setting) : Nat → Step Value
  | 0 => refuse σ
  | n + 1 => do
    let left ← sum σ n
    match (← peek).comparison? with
    | some op =>
      advance
      let right ← sum σ n
      return .boolean (op.holds left right)
    | none => return left

/-- A sum: products joined by `+` and `-`. -/
def sum (σ : Setting) : Nat → Step Value
  | 0 => refuse σ
  | n + 1 => do
    let left ← product σ n
    productsFrom σ n left

/-- The products that are added to or subtracted from what is before them. -/
def productsFrom (σ : Setting) : Nat → Value → Step Value
  | 0, _ => refuse σ
  | n + 1, left => do
    match (← peek).arithmetic?.filter (·.isAdditive) with
    | some op =>
      advance
      let right ← product σ n
      productsFrom σ n (.number (op.apply left.toNumber right.toNumber))
    | none => return left

/-- A product: operands joined by `*`, `/` and `%`. -/
def product (σ : Setting) : Nat → Step Value
  | 0 => refuse σ
  | n + 1 => do
    let left ← operand σ n
    operandsFrom σ n left

/-- The operands by which what is before them is multiplied or divided. -/
def operandsFrom (σ : Setting) : Nat → Value → Step Value
  | 0, _ => refuse σ
  | n + 1, left => do
    match (← peek).arithmetic?.filter (!·.isAdditive) with
    | some op =>
      advance
      let right ← operand σ n
      operandsFrom σ n (.number (op.apply left.toNumber right.toNumber))
    | none => return left

/-- An operand. A keyword where an operand belongs is a name like any other. -/
def operand (σ : Setting) : Nat → Step Value
  | 0 => refuse σ
  | n + 1 => do
    let offset ← position σ
    match ← peek with
    | .number x => advance; return .number x
    | .text s => advance; return .text s
    | .boolean b => advance; return .boolean b
    | .openParen =>
      advance
      let v ← expression σ n
      closeParen σ
      return v
    | .identifier name =>
      advance
      match ← peek with
      | .openParen =>
        advance
        let vs ← arguments σ n
        closeParen σ
        call σ name vs offset
      | _ => lookUp σ name offset
    | _ => refuse σ

/-- The arguments of a call, up to a closing bracket or the end. The comma behind an argument may
be missing. -/
def arguments (σ : Setting) : Nat → Step (List Value)
  | 0 => refuse σ
  | n + 1 => do
    match ← peek with
    | .closeParen | .endOfInput => return []
    | _ =>
      let v ← expression σ n
      match ← peek with
      | .comma => advance
      | _ => pure ()
      let vs ← arguments σ n
      return v :: vs

end

end Step

/-! ## Whole lists of tokens -/

/-- The tokens in front of the first end marker. -/
def beforeEnd (tokens : List Token) : List Token :=
  tokens.takeWhile (·.kind != .endOfInput)

/-- The offset of the first end marker; without one, the offset of the last token. -/
def endOffset (tokens : List Token) : Nat :=
  match tokens.find? (·.kind == .endOfInput) with
  | some t => t.offset
  | none => (tokens.getLast?.map Token.offset).getD 0

/-- A budget that an evaluation of this many tokens does not use up. -/
def budgetFor (tokens : List Token) : Nat := 8 * (tokens.length + 1)

/-- What an evaluation comes to. -/
structure Report where
  result : Except EvalError Value
  /-- The calls of host functions that were made, in order, also by one that then failed. -/
  calls : List Call
  /-- The tokens behind the expression, or behind the point of failure. -/
  unread : List Token

/-- The first token that an evaluation left unread behind a complete expression. -/
def Report.ignored? (r : Report) : Option Token :=
  match r.result with
  | .ok _ => r.unread.head?
  | .error _ => none

/-- Evaluates the expression at the front of a list of tokens. Leftover tokens are an error in
strict evaluation and ignored otherwise. -/
def evaluateTokens (tokens : List Token) (bindings : Table Value) (functions : Table Callable)
    (options : Options) : Report :=
  let rest := beforeEnd tokens
  let σ : Setting := ⟨bindings, functions, options, endOffset tokens⟩
  match Step.expression σ (budgetFor rest) { rest } with
  | .error e s => ⟨.error e, s.calls, s.rest⟩
  | .ok v s =>
    match s.rest with
    | t :: _ =>
      if options.strict then ⟨.error (.trailingTokens t.kind t.offset), s.calls, s.rest⟩
      else ⟨.ok v, s.calls, s.rest⟩
    | [] => ⟨.ok v, s.calls, []⟩

end Formula
