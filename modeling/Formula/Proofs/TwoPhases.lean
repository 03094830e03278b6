import Formula.Proofs.Blame
import Formula.Proofs.Matching

/-!
# Evaluating while reading

Evaluating at once does what reading first and evaluating afterwards does: the same value or the
same error, the same calls in the same order, the same tokens left over.

## The induction

It is on the budget of the evaluation, over all levels together (`Simulates`). The reader has no
budget, so the induction shows on the way that the one of the evaluation is never used up: every
level asks for eight for each token in front of it and a few more, by which the levels are told
apart. A loop goes on from a tree that has been evaluated already; its statement is therefore about
a state before that tree, and about any tree and any state that fit together (`FollowsRow`).
-/

namespace Formula

open Formula.Tree Reader

/-! ## Levels -/

/-- At any state, a step is what a reader of the state's level comes to. -/
def Follows (σ : Setting) (r : Nat → Reader Tree) (extra budget : Nat) (x : Step Value) : Prop :=
  ∀ s : Progress, 8 * s.rest.length + extra ≤ budget →
    Matches σ.scope (Tree.evaluate σ.scope) s.skipping s (r (σ.remaining s) s.rest) (x s)

/-- From any tree on, a loop is what a row comes to. -/
def FollowsRow (σ : Setting) (l : Level) (operand : Nat → Reader Tree) (budget : Nat)
    (loop : Value → Step Value) : Prop :=
  ∀ (s : Progress) (ts : List Token) (n : Nat) (left : Tree) (v : Value) (calls : List Call),
    8 * ts.length + 1 ≤ budget → ts.length ≤ n →
    left.evaluate σ.scope s.skipping = ⟨.ok v, calls⟩ →
    Matches σ.scope (Tree.evaluate σ.scope) s.skipping s
      (rowFrom l (operand (σ.remaining s)) n left ts)
      (loop v { s with rest := ts, calls := s.calls ++ calls })

/-- Every level of the evaluation is what the same level of the grammar comes to. -/
structure Simulates (σ : Setting) (n : Nat) : Prop where
  expression : Follows σ σ.grammar.expression 8 n (Step.expression σ n)
  condition : Follows σ (fun d ↦ row .conjunction (σ.grammar.term d)) 7 n (Step.condition σ n)
  conditionsFrom : FollowsRow σ .disjunction (fun d ↦ row .conjunction (σ.grammar.term d)) n
    (Step.conditionsFrom σ n)
  term : Follows σ σ.grammar.term 6 n (Step.term σ n)
  termsFrom : FollowsRow σ .conjunction σ.grammar.term n (Step.termsFrom σ n)
  comparison : Follows σ (fun d ↦ σ.grammar.comparison (σ.grammar.expression d)) 5 n
    (Step.comparison σ n)
  sum : Follows σ (fun d ↦ σ.grammar.sum (σ.grammar.expression d)) 4 n (Step.sum σ n)
  productsFrom : FollowsRow σ .sum
    (fun d ↦ row .product (σ.grammar.operand (σ.grammar.expression d))) n (Step.productsFrom σ n)
  product : Follows σ (fun d ↦ row .product (σ.grammar.operand (σ.grammar.expression d))) 3 n
    (Step.product σ n)
  operandsFrom : FollowsRow σ .product (fun d ↦ σ.grammar.operand (σ.grammar.expression d)) n
    (Step.operandsFrom σ n)
  operand : Follows σ (fun d ↦ σ.grammar.operand (σ.grammar.expression d)) 2 n (Step.operand σ n)
  arguments : ∀ (s : Progress) (m : Nat), 8 * s.rest.length + 9 ≤ n → s.rest.length ≤ m →
    Matches σ.scope (evaluateAll σ.scope) s.skipping s
      (Reader.arguments (σ.grammar.expression (σ.remaining s)) m s.rest) (Step.arguments σ n s)

/-- An operand and a loop behind it are a row. -/
theorem Follows.row {σ : Setting} {l : Level} {r : Nat → Reader Tree} {extra budget : Nat}
    {x : Step Value} {loop : Value → Step Value} (hx : Follows σ r extra budget x)
    (hloop : FollowsRow σ l r budget loop) (hr : ∀ d, (r d).Advances) :
    Follows σ (fun d ↦ row l (r d)) (extra + 1) (budget + 1) (x >>= loop) := by
  intro s hbudget
  refine Matches.bind rfl (hx s (by omega)) (fun p ↦ begins_rowFrom l _ _ _ _ _) ?_
  intro p v calls hp hvalue
  have hlt := (hr _).length_lt hp
  exact hloop s p.rest _ p.value v calls (by omega) (by omega) hvalue

/-- A loop is its rounds. -/
theorem FollowsRow.succ {σ : Setting} {l : Level} {r : Nat → Reader Tree} {budget : Nat}
    {x : Joint → Value → Step Value} {loop : Value → Step Value}
    (hx : ∀ (s : Progress) (j : Joint) (v : Value) (k : TokenKind),
      Joint.atLevel? l k = some j → 8 * (s.rest.length + 1) ≤ budget →
      Matches σ.scope (Tree.evaluate σ.scope)
        (s.skipping || σ.options.shortCircuit && j.isDecidedBy v) s (r (σ.remaining s) s.rest)
        (x j v s))
    (hloop : FollowsRow σ l r budget loop) (hr : ∀ d, (r d).Advances) :
    FollowsRow σ l r (budget + 1) (Step.round l x loop) := by
  intro s ts n left v calls hbudget hn hleft
  cases n with
  | zero =>
    -- the count of the row runs out only where no token is left, and there it ends anyway
    obtain rfl := List.eq_nil_of_length_eq_zero (Nat.le_zero.mp hn)
    have hend : Joint.atLevel? l (front []) = none := by cases l <;> rfl
    rw [rowFrom_end hend, Step.round_end hend]
    exact Matches.of_ok hleft
  | succ n =>
    refine Matches.round hleft (fun j hj ↦ ?_) fun j p v' calls' hj hp hvalue ↦ ?_
    · refine hx { s with rest := ts.tail, calls := s.calls ++ calls } j v (front ts) hj ?_
      have hpos := List.length_pos_iff.mpr (ne_nil_of_front rfl (Joint.ne_endOfInput hj))
      simp only [List.length_tail]
      omega
    · -- the joint and its right operand took two tokens at least, which pays for the next round
      have hlt := (hr _).length_lt hp
      have htail := List.length_tail (l := ts)
      exact hloop s p.rest n _ v' calls' (by omega) (by omega) hvalue

/-- What is read one level deeper is evaluated one level deeper. -/
theorem Follows.nested {σ : Setting} {r r' : Nat → Reader Tree} {extra budget : Nat}
    {x : Step Value} (hzero : r' 0 = σ.grammar.tooDeep) (hsucc : ∀ d, r' (d + 1) = r d)
    (hx : Follows σ r extra budget x) : Follows σ r' extra budget (Step.nested σ x) := by
  intro s hbudget
  by_cases hdepth : s.depth < σ.options.maxDepth
  · -- a counter that rises to a limit against a recursion that falls to zero
    have hremaining : σ.remaining s = σ.remaining { s with depth := s.depth + 1 } + 1 := by
      simp only [Setting.remaining]
      omega
    rw [hremaining, hsucc]
    exact Matches.nested hdepth (hx { s with depth := s.depth + 1 } hbudget)
  · have hremaining : σ.remaining s = 0 := by
      simp only [Setting.remaining]
      omega
    rw [hremaining, hzero]
    exact Matches.tooDeep (Nat.not_lt.mp hdepth)

/-- The right operand of a comparison or of arithmetic is never passed over by itself. -/
theorem Follows.right {σ : Setting} {l : Level} {r : Nat → Reader Tree} {extra budget : Nat}
    {x : Step Value} (hx : Follows σ r extra budget x) (hextra : extra ≤ 8)
    (hl : l ≠ .disjunction) (hl' : l ≠ .conjunction) (s : Progress) (j : Joint) (v : Value)
    (k : TokenKind) (hj : Joint.atLevel? l k = some j)
    (hbudget : 8 * (s.rest.length + 1) ≤ budget) :
    Matches σ.scope (Tree.evaluate σ.scope)
      (s.skipping || σ.options.shortCircuit && j.isDecidedBy v) s (r (σ.remaining s) s.rest)
      (x s) := by
  rw [Joint.isDecidedBy_eq_false hj hl hl', Bool.and_false, Bool.or_false]
  exact hx s (by omega)

/-- The right operand of `and` and `or` is passed over if it is decided. -/
theorem Follows.skippingIf {σ : Setting} {r : Nat → Reader Tree} {extra budget : Nat}
    {x : Step Value} (hx : Follows σ r extra budget x) (hextra : extra ≤ 8) (s : Progress)
    (j : Joint) (v : Value) (hbudget : 8 * (s.rest.length + 1) ≤ budget) :
    Matches σ.scope (Tree.evaluate σ.scope)
      (s.skipping || σ.options.shortCircuit && j.isDecidedBy v) s (r (σ.remaining s) s.rest)
      (Step.skippingIf (σ.options.shortCircuit && j.isDecidedBy v) x s) := by
  refine Matches.skippingIf rfl ?_
  have hbudget' : 8 * s.rest.length + extra ≤ budget := by omega
  exact hx { s with skipping := s.skipping || σ.options.shortCircuit && j.isDecidedBy v } hbudget'

/-! ## Operands and arguments -/

/-- A call, from behind its opening bracket. -/
theorem Simulates.call {σ : Setting} {n : Nat} (hn : Simulates σ n) (name : String) (offset : Nat)
    (s : Progress) (ts : List Token) (m : Nat) (hbudget : 8 * ts.length + 9 ≤ n)
    (hm : ts.length ≤ m) :
    Matches σ.scope (Tree.evaluate σ.scope) s.skipping s
      ((do
        let as ← Reader.arguments (σ.grammar.expression (σ.remaining s)) m
        within (as.map .after) σ.grammar.closing
        return Tree.call name as offset : Reader Tree) ts)
      ((do
        let vs ← Step.arguments σ n
        Step.closeParen σ
        Step.call σ name vs offset) { s with rest := ts }) := by
  have hcall : ∀ as : List Tree, (Tree.call name as offset).evaluate σ.scope s.skipping
      = evaluateAll σ.scope s.skipping as >>= fun vs ↦
        σ.scope.call s.skipping name vs offset := fun as ↦ by rw [Tree.evaluate]
  refine Matches.bind (t := { s with rest := ts }) rfl
    (hn.arguments { s with rest := ts } m hbudget hm) (fun p ↦ ?_) fun p vs calls hp hvalues ↦ ?_
  · exact begins_closed_call _ _ _ _ _ _
  · have hframes : enterAll σ.scope s.skipping (p.value.map .after) = ⟨.ok s.skipping, calls⟩ := by
      rw [enterAll_map_after, hvalues, Run.bind_ok, Run.pure_eq, List.append_nil]
    have hvalue : (Tree.call name p.value offset).evaluate σ.scope s.skipping
        = ⟨.ok (), calls⟩ >>= fun _ ↦ σ.scope.call s.skipping name vs offset := by
      rw [hcall, hvalues]
      rfl
    refine Matches.closed (Matches.closeParen σ) hframes (begins_call _ _ _ _) fun rest ↦ ?_
    rw [Step.call_apply]
    exact Matches.of_ofRun (p := ⟨Tree.call name p.value offset, rest, 0⟩) hvalue
      (stopsAtNames_call _ _ _ _ _)

theorem Follows.operand {σ : Setting} {n : Nat} (hn : Simulates σ n) :
    Follows σ (fun d ↦ σ.grammar.operand (σ.grammar.expression d)) 2 (n + 1)
      (Step.operand σ (n + 1)) := by
  intro s hbudget
  rw [Step.operand, Step.position_bind, Step.peek_bind]
  simp only [Grammar.operand]
  have htail := List.length_tail (l := s.rest)
  have hpos : ∀ {k : TokenKind}, front s.rest = k → k ≠ .endOfInput → 0 < s.rest.length :=
    fun hk hne ↦ List.length_pos_iff.mpr (ne_nil_of_front hk hne)
  have hliteral : ∀ v : Value, Matches σ.scope (Tree.evaluate σ.scope) s.skipping s
      (.ok ⟨.literal v, s.rest.tail, 0⟩) (.ok v { s with rest := s.rest.tail }) := by
    intro v
    exact ⟨[], rfl, by rw [List.append_nil]⟩
  have hrefuse : Matches σ.scope (Tree.evaluate σ.scope) s.skipping s
      (σ.grammar.refuse s.rest) ((Step.refuse σ : Step Value) s) := by
    rw [Step.refuse_apply]
    exact Matches.of_error s _
  cases hfront : front s.rest with
  | number x => exact hliteral (.number x)
  | text t => exact hliteral (.text t)
  | boolean b => exact hliteral (.boolean b)
  | openParen =>
    have hlt := hpos hfront (by simp)
    refine Matches.bind (t := { s with rest := s.rest.tail }) rfl
      (hn.expression { s with rest := s.rest.tail } ?_) (fun p ↦ ?_) fun p v calls hp hvalue ↦ ?_
    · simp only [htail]
      omega
    · exact begins_closed_group _ _ _ _
    · exact Matches.closed (Matches.closeParen σ)
        ((enterAll_singleton _ _).trans (enter_after hvalue)) (begins_group _ _) fun rest ↦
          Matches.of_ok (p := ⟨p.value, rest, 0⟩) hvalue
  | identifier name =>
    -- keywords are no exception here: `and` in front of an operand is looked up like any name
    have hlt := hpos hfront (by simp)
    have hnamed : Matches σ.scope (Tree.evaluate σ.scope) s.skipping s
        (.ok ⟨.named name (σ.grammar.position s.rest), s.rest.tail, 0⟩)
        (Step.lookUp σ name (σ.grammar.position s.rest) { s with rest := s.rest.tail }) := by
      rw [Step.lookUp_apply]
      have hlookUp : Matches σ.scope (Tree.evaluate σ.scope) s.skipping s
          (.ok ⟨.named name (σ.grammar.position s.rest), s.rest.tail, 0⟩)
          (Step.ofRun (σ.scope.lookUp s.skipping name (σ.grammar.position s.rest))
            { s with rest := s.rest.tail, calls := s.calls ++ [] }) :=
        Matches.of_ofRun rfl (stopsAtNames_lookUp _ _ _ _)
      rwa [List.append_nil] at hlookUp
    simp only [Step.advance_bind, Step.peek_bind]
    cases hparen : front s.rest.tail with
    | openParen =>
      have hlt' := List.length_pos_iff.mpr (ne_nil_of_front hparen (by simp))
      have htail' := List.length_tail (l := s.rest.tail)
      exact hn.call name _ s s.rest.tail.tail s.rest.length (by omega) (by omega)
    | _ => exact hnamed
  | operator op => exact hrefuse
  | closeParen => exact hrefuse
  | comma => exact hrefuse
  | endOfInput => exact hrefuse

/-- The arguments of a call, one after the other. -/
theorem Simulates.arguments_succ {σ : Setting} {n : Nat} (hn : Simulates σ n) (s : Progress)
    (m : Nat) (hbudget : 8 * s.rest.length + 9 ≤ n + 1) (hm : s.rest.length ≤ m) :
    Matches σ.scope (evaluateAll σ.scope) s.skipping s
      (Reader.arguments (σ.grammar.expression (σ.remaining s)) m s.rest)
      (Step.arguments σ (n + 1) s) := by
  by_cases hends : endsArguments (front s.rest)
  · rw [arguments_end hends, Step.arguments_end σ n hends]
    exact ⟨[], rfl, by rw [List.append_nil]⟩
  · have hne : s.rest ≠ [] := by
      intro hnil
      rw [hnil] at hends
      exact hends rfl
    have hlt := List.length_pos_iff.mpr hne
    obtain ⟨m, rfl⟩ : ∃ m', m = m' + 1 := ⟨m - 1, by omega⟩
    -- an argument takes a token even if no comma follows, so the others have less in front of them
    rw [arguments_more hends, Step.arguments_more σ n hends]
    refine Matches.bind rfl (hn.expression s (by omega))
      (fun p ↦ begins_arguments _ _ _ _) fun p v calls hp hvalue ↦ ?_
    have hshorter := (σ.grammar.advances_expression _).length_lt hp
    have hcomma := (afterComma_suffix p.rest).length_le
    rw [Step.comma_bind, bind_apply, comma, andThen_ok]
    refine Matches.map_missing 0 ?_
    have hothers := hn.arguments { s with rest := afterComma p.rest, calls := s.calls ++ calls } m
      (show 8 * (afterComma p.rest).length + 9 ≤ n by omega)
      (show (afterComma p.rest).length ≤ m by omega)
    refine Matches.bind_within ((enterAll_singleton _ _).trans (enter_after hvalue)) rfl hothers
      (fun q ↦ ?_) fun q vs calls' hq hvalues ↦ ?_
    · exact (begins_cons _ _ _).trans
        (begins_meaning (evaluateAll σ.scope) s.skipping ⟨p.value :: q.value, q.rest, 0⟩)
    · have hvalue' : p.value.evaluate σ.scope s.skipping = ⟨.ok v, calls⟩ := hvalue
      have hvalues' : evaluateAll σ.scope s.skipping q.value = ⟨.ok vs, calls'⟩ := hvalues
      refine Matches.of_ok (p := ⟨p.value :: q.value, q.rest, 0⟩) ?_
      rw [evaluateAll, hvalue', Run.bind_ok, hvalues', Run.bind_ok, Run.pure_eq, List.append_nil]

/-! ## The levels together -/

/-- A comparison is a sum and at most one round. -/
theorem Simulates.comparison_succ {σ : Setting} {n : Nat} (hn : Simulates σ n) :
    Follows σ (fun d ↦ σ.grammar.comparison (σ.grammar.expression d)) 5 (n + 1)
      (Step.comparison σ (n + 1)) := by
  intro s hbudget
  rw [Step.comparison_succ]
  refine Matches.bind rfl (hn.sum s (by omega)) (fun p ↦ begins_rowFrom _ _ _ _ _ _) ?_
  intro p v calls hp hvalue
  have hshorter := (σ.grammar.advances_sum (σ.grammar.advances_expression _).keeps).length_lt hp
  refine Matches.round hvalue (fun j hj ↦ ?_) fun j q v' calls' _ _ hvalue' ↦ ?_
  · refine hn.sum.right (by omega) (by simp) (by simp)
      { s with rest := p.rest.tail, calls := s.calls ++ calls } j v _ hj ?_
    have hpos := List.length_pos_iff.mpr (ne_nil_of_front rfl (Joint.ne_endOfInput hj))
    simp only [List.length_tail]
    omega
  · exact Matches.of_ok (p := ⟨Tree.joined j p.value q.value, q.rest, 0⟩) hvalue'

/-- A term is a comparison or negated. -/
theorem Simulates.term_succ {σ : Setting} {n : Nat} (hn : Simulates σ n) :
    Follows σ σ.grammar.term 6 (n + 1) (Step.term σ (n + 1)) := by
  intro s hbudget
  have hnegated : Follows σ σ.grammar.negated 6 n (Step.nested σ (Step.term σ n)) :=
    hn.term.nested rfl fun _ ↦ rfl
  rw [Step.term, Step.peek_bind, σ.grammar.term_eq, Grammar.termOver]
  by_cases hnot : (front s.rest).isKeyword "not" = true
  · rw [if_pos hnot, if_pos hnot, Step.advance_bind]
    have hne : s.rest ≠ [] := ne_nil_of_front (TokenKind.eq_of_isKeyword hnot) (by simp)
    have hlt := List.length_pos_iff.mpr hne
    have htail := List.length_tail (l := s.rest)
    refine Matches.bind (t := { s with rest := s.rest.tail }) rfl
      (hnegated { s with rest := s.rest.tail } ?_) (fun p ↦ ?_) fun p v calls hp hvalue ↦ ?_
    · simp only [htail]
      omega
    · exact begins_negated s.skipping p.value p.rest
    · refine Matches.of_ok (p := ⟨Tree.not p.value, p.rest, 0⟩) ?_
      rw [Tree.evaluate, hvalue, Run.bind_ok, Run.pure_eq, List.append_nil]
  · rw [if_neg hnot, if_neg hnot]
    exact hn.comparison s (by omega)

/-- **One call of a level costs one of the budget.** -/
theorem Simulates.succ {σ : Setting} {n : Nat} (hn : Simulates σ n) : Simulates σ (n + 1) := by
  have hexpression := σ.grammar.advances_expression
  have hterm := σ.grammar.advances_term
  have hoperand := fun d ↦ σ.grammar.advances_operand (hexpression d).keeps
  have hproduct := fun d ↦ advances_row .product (hoperand d)
  refine
    { expression := (hn.condition.row hn.conditionsFrom fun d ↦
        advances_row _ (hterm d)).nested rfl fun _ ↦ rfl
      condition := hn.term.row hn.termsFrom hterm
      conditionsFrom := ?_
      term := hn.term_succ
      termsFrom := ?_
      comparison := hn.comparison_succ
      sum := hn.product.row hn.productsFrom hproduct
      productsFrom := ?_
      product := hn.operand.row hn.operandsFrom hoperand
      operandsFrom := ?_
      operand := Follows.operand hn
      arguments := hn.arguments_succ }
  · rw [Step.conditionsFrom_succ]
    exact hn.conditionsFrom.succ (fun s j v _ _ hbudget ↦
      hn.condition.skippingIf (by omega) s j v hbudget) fun d ↦ advances_row _ (hterm d)
  · rw [Step.termsFrom_succ]
    exact hn.termsFrom.succ (fun s j v _ _ hbudget ↦
      hn.term.skippingIf (by omega) s j v hbudget) hterm
  · rw [Step.productsFrom_succ]
    exact hn.productsFrom.succ (hn.product.right (by omega) (by simp) (by simp)) hproduct
  · rw [Step.operandsFrom_succ]
    exact hn.operandsFrom.succ (hn.operand.right (by omega) (by simp) (by simp)) hoperand

theorem simulates (σ : Setting) (n : Nat) : Simulates σ n := by
  induction n with
  | zero =>
    -- no level asks for nothing, so an empty budget is never met
    constructor
    case arguments => exact fun s m hbudget _ ↦ absurd hbudget (by omega)
    all_goals
      intro s
      intros
      omega
  | succ n ih => exact ih.succ

/-! ## Whole lists of tokens -/

section Whole

variable (tokens : List Token) (bindings : Table Value) (functions : Table Callable)
  (options : Options)

/-- An expression and what closes it off, from the start of an evaluation. -/
theorem matches_whole (σ : Setting) {c : Reader Unit} {y : Step Unit}
    (hy : ∀ s : Progress,
      Matches σ.scope (fun _ _ ↦ (pure () : Run Unit)) false s (c s.rest) (y s)) :
    Matches σ.scope (Tree.evaluate σ.scope) false { rest := tokens }
      ((do
        let t ← σ.grammar.expression σ.options.maxDepth
        within [.after t] c
        return t : Reader Tree) tokens)
      ((do
        let v ← Step.expression σ (budgetFor tokens)
        y
        return v : Step Value) { rest := tokens }) := by
  have hbudget : 8 * tokens.length + 8 ≤ budgetFor tokens := by
    rw [budgetFor]
    omega
  have hexpression := (simulates σ (budgetFor tokens)).expression { rest := tokens } hbudget
  refine Matches.bind rfl hexpression (fun p ↦ ?_) fun p v calls hp hvalue ↦ ?_
  · exact begins_closed_group _ _ _ _
  · exact Matches.closed hy ((enterAll_singleton _ _).trans (enter_after hvalue))
      (begins_group _ _) fun rest ↦ Matches.of_ok (p := ⟨p.value, rest, 0⟩) hvalue

private theorem matches_read :
    let σ : Setting := ⟨bindings, functions, options, endOffset tokens⟩
    Matches σ.scope (Tree.evaluate σ.scope) false { rest := beforeEnd tokens }
      (Tree.read tokens options.strict options.maxDepth)
      ((do
        let v ← Step.expression σ (budgetFor (beforeEnd tokens))
        Step.ending σ
        return v : Step Value) { rest := beforeEnd tokens }) :=
  matches_whole (beforeEnd tokens) _ (Matches.ending _)

/-- **An evaluation is what its two phases come to.** -/
theorem agrees_evaluateTokens : (evaluateTokens tokens bindings functions options).Agrees
    ⟨bindings, functions, options.shortCircuit⟩
    (Tree.read tokens options.strict options.maxDepth) := by
  have hmatches := matches_read tokens bindings functions options
  rw [evaluateTokens_eq]
  simp only at hmatches ⊢
  split
  · next v s hstep =>
    rw [hstep] at hmatches
    obtain ⟨p, calls, hread, hvalue, rfl⟩ := hmatches.eq_ok
    refine ⟨?_, fun _ _ ↦ ⟨p, hread, rfl⟩, fun e he ↦ absurd he (by simp)⟩
    rw [hread, outcomeRun]
    exact hvalue.symm
  · next e s hstep =>
    rw [hstep] at hmatches
    obtain ⟨calls, hmeaning, hcalls, hform⟩ := hmatches
    refine ⟨?_, fun v hv ↦ absurd hv (by simp), fun e' he' hstructural ↦ ?_⟩
    · rw [outcomeRun_eq, Report.run, hcalls]
      exact (congrArg (· >>= fun b ↦ pure b.1) hmeaning).symm
    · obtain rfl : e = e' := by simpa using he'
      obtain ⟨f, hread, hunread⟩ := hform hstructural
      exact ⟨f, hread, hunread.symm⟩

end Whole

/-- **Evaluating while reading agrees with reading first and evaluating afterwards.** If there is a
tree, its value or its undefined name is the result and its calls are the calls. If there is none,
the failure of reading is the result, with the token that it is about and its offset, unless
evaluating what was read before it stops at a name. -/
theorem evaluateTokens_two_phases (tokens : List Token) (bindings : Table Value)
    (functions : Table Callable) (options : Options) :
    let report := evaluateTokens tokens bindings functions options
    let ρ : Scope := ⟨bindings, functions, options.shortCircuit⟩
    match Tree.read tokens options.strict options.maxDepth with
    | .ok p =>
      report.result = (p.value.evaluate ρ false).result ∧
        report.calls = (p.value.evaluate ρ false).calls ∧
        (∀ v, report.result = .ok v → report.unread = p.rest) ∧
        ∀ e, report.result = .error e → e.isStructural = false
    | .error f =>
      f.error.isStructural ∧ f.unread <:+ beforeEnd tokens ∧
        Grammar.Blames ⟨options.strict, options.maxDepth, endOffset tokens⟩ f.error f.unread ∧
        match enterAll ρ false f.draft with
        | ⟨.ok _, calls⟩ => report = ⟨.error f.error, calls, f.unread⟩
        | ⟨.error e, calls⟩ =>
          report.result = .error e ∧ report.calls = calls ∧ e.isStructural = false := by
  intro report ρ
  have hagrees := agrees_evaluateTokens tokens bindings functions options
  have hrun := hagrees.run
  cases hread : Tree.read tokens options.strict options.maxDepth with
  | ok p =>
    rw [hread, outcomeRun] at hrun
    have hresult : report.result = (p.value.evaluate ρ false).result := congrArg Run.result hrun
    refine ⟨hresult, congrArg Run.calls hrun, fun v hv ↦ ?_, fun e he ↦ ?_⟩
    · obtain ⟨q, hq, hunread⟩ := hagrees.unread_of_ok v hv
      rw [hread] at hq
      rw [hunread, ← Except.ok.inj hq]
    · exact stopsAtNames_evaluate ρ p.value false e (hresult ▸ he)
  | error f =>
    obtain ⟨hsuffix, hblames⟩ := Tree.blames_read hread
    have hstructural := hblames.isStructural
    refine ⟨hstructural, hsuffix, hblames, ?_⟩
    rw [hread, outcomeRun, Failure.run] at hrun
    have hnames := stopsAtNames_enterAll ρ f.draft false
    rcases hdraft : enterAll ρ false f.draft with ⟨e | skipping, calls⟩
    · rw [hdraft, Run.bind_error] at hrun
      exact ⟨congrArg Run.result hrun, congrArg Run.calls hrun, hnames e (by rw [hdraft])⟩
    · rw [hdraft, Run.bind_ok] at hrun
      -- the failure of reading shows, and with it the tokens at which it was noticed
      have hresult : report.result = .error f.error := congrArg Run.result hrun
      obtain ⟨f', hf', hunread⟩ := hagrees.unread_of_structural f.error hresult hstructural
      rw [hread] at hf'
      obtain rfl := Except.error.inj hf'
      have hcalls : report.calls = calls ++ [] := congrArg Run.calls hrun
      rw [List.append_nil] at hcalls
      calc report = ⟨report.result, report.calls, report.unread⟩ := rfl
        _ = ⟨.error f.error, calls, f.unread⟩ := by rw [hresult, hcalls, hunread]

end Formula
