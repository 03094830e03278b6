import Formula.Proofs.EndMarker
import Formula.Proofs.Lookahead
import Formula.Proofs.Resolving

/-!
# Values in place of names

A variable can be replaced by what it stands for. In the tokens it is an identifier with no bracket
behind it, and the token of its value takes its place (`substituted`); a bracket behind the same
identifier makes it the name of a function, which stays. What is read from the tokens changes in the
same way, and neither reading can tell the two apart: a literal and a name are both operands, and no
other reader takes an identifier unless it is a keyword.

Evaluating does tell them apart, namely in operands that are passed over. There a variable counts as
`false`, whatever it stands for, and a literal as itself. But such an operand has a value that goes
into nothing (`evaluate_substituted`), so that the two evaluations come to the same.

An error names what was found in the wrong place, and that is never a variable, except among the
tokens left over. Only such an error can change, and only in the token that it shows
(`EvalError.leaving`).
-/

namespace Formula

open Formula.Tree Reader

/-! ## Substituting -/

/-- The error with which the given tokens are left. Only the one about leftovers shows one of
them. -/
def EvalError.leaving (ts : List Token) : EvalError → EvalError
  | trailingTokens _ n => trailingTokens (front ts) n
  | e => e

section Substituting

variable (x : String) (w : Value)

/-- Whether the token in front is the variable `x`, and not a function of that name. -/
def ShowsVariable (ts : List Token) : Prop :=
  front ts = .identifier x ∧ front ts.tail ≠ .openParen

instance (ts : List Token) : Decidable (ShowsVariable x ts) :=
  inferInstanceAs (Decidable (_ ∧ _))

/-- The tokens with a value in place of a variable. -/
def substituted : List Token → List Token
  | [] => []
  | t :: ts =>
    (if ShowsVariable x (t :: ts) then { t with kind := w.mark } else t) :: substituted ts

namespace Tree

mutual

/-- The tree with a value in place of a variable. -/
def substituted : Tree → Tree
  | literal v => literal v
  | named name n => if name = x then literal w else named name n
  | call name arguments n => call name (substitutedAll arguments) n
  | not operand => not (substituted operand)
  | joined j left right => joined j (substituted left) (substituted right)

def substitutedAll : List Tree → List Tree
  | [] => []
  | t :: ts => substituted t :: substitutedAll ts

end

def Frame.substituted : Frame → Frame
  | after t => after (t.substituted x w)
  | right j left => right j (left.substituted x w)

theorem substitutedAll_eq_map (ts : List Tree) :
    substitutedAll x w ts = ts.map (substituted x w) := by
  induction ts with
  | nil => rfl
  | cons t ts ih => rw [substitutedAll, ih, List.map_cons]

end Tree

/-- The outcome of reading, with the value in place of the variable in what was read and in what was
left. -/
def substitutedOutcome {α : Type} (change : α → α) :
    Except Failure (Part α) → Except Failure (Part α)
  | .ok p => .ok ⟨change p.value, substituted x w p.rest, p.missing⟩
  | .error f =>
    let unread := substituted x w f.unread
    .error ⟨f.error.leaving unread, f.draft.map (Frame.substituted x w), unread⟩

/-! ## Evaluating -/

namespace Tree

variable {x w} {ρ : Scope}

mutual

/-- **A tree with a value in place of a variable has the same value**, behind the same calls. -/
theorem evaluate_substituted (hx : ρ.bindings.get? x = some w) : ∀ t : Tree,
    (t.substituted x w).evaluate ρ false = t.evaluate ρ false
  | literal v => rfl
  | named name n => by
    rw [substituted]
    split
    · next hname =>
      subst hname
      rw [evaluate, evaluate, Scope.lookUp, hx]
      rfl
    · rfl
  | call name arguments n => by
    rw [substituted, evaluate, evaluate, evaluateAll_substituted hx arguments]
  | not operand => by rw [substituted, evaluate, evaluate, evaluate_substituted hx operand]
  | joined j left right => by
    rw [substituted, evaluate, evaluate, evaluate_substituted hx left]
    refine bind_congr fun v ↦ ?_
    cases hskip : (false || ρ.shortCircuit && j.isDecidedBy v) with
    | false => rw [evaluate_substituted hx right]
    | true =>
      -- passed over, the right operands may differ, but the left one has decided
      have hdecided : j.isDecidedBy v := by simp_all
      obtain ⟨u, hu⟩ := evaluate_skipping ρ right
      obtain ⟨u', hu'⟩ := evaluate_skipping ρ (right.substituted x w)
      rw [hu, hu', pure_bind, pure_bind, Joint.apply_eq_of_isDecidedBy hdecided u' u]

theorem evaluateAll_substituted (hx : ρ.bindings.get? x = some w) : ∀ ts : List Tree,
    evaluateAll ρ false (substitutedAll x w ts) = evaluateAll ρ false ts
  | [] => rfl
  | t :: ts => by
    rw [substitutedAll, evaluateAll, evaluateAll, evaluate_substituted hx t,
      evaluateAll_substituted hx ts]

end

theorem enter_substituted (hx : ρ.bindings.get? x = some w) (f : Frame) (skipping : Bool) :
    (f.substituted x w).enter ρ skipping = f.enter ρ skipping := by
  cases skipping with
  | false => cases f <;> simp only [Frame.substituted, Frame.enter, evaluate_substituted hx]
  | true =>
    cases f with
    | after t =>
      obtain ⟨u, hu⟩ := evaluate_skipping ρ t
      obtain ⟨u', hu'⟩ := evaluate_skipping ρ (t.substituted x w)
      rw [Frame.substituted, Frame.enter, Frame.enter, hu, hu', pure_bind, pure_bind]
    | right j left =>
      obtain ⟨u, hu⟩ := evaluate_skipping ρ left
      obtain ⟨u', hu'⟩ := evaluate_skipping ρ (left.substituted x w)
      rw [Frame.substituted, Frame.enter, Frame.enter, hu, hu', pure_bind, pure_bind,
        Bool.true_or, Bool.true_or]

/-- What was read before a failure comes to the same, also in an operand that is passed over. -/
theorem enterAll_substituted (hx : ρ.bindings.get? x = some w) (draft : List Frame) :
    ∀ skipping : Bool, enterAll ρ skipping (draft.map (Frame.substituted x w))
      = enterAll ρ skipping draft := by
  induction draft with
  | nil => exact fun _ ↦ rfl
  | cons f draft ih =>
    intro skipping
    rw [List.map_cons, enterAll_cons, enterAll_cons, enter_substituted hx]
    exact bind_congr ih

end Tree

/-! ## Names -/

namespace Tree

variable {x w} (ρ : Scope)

mutual

/-- **In a tree with a value in its place, a variable is never looked up.** -/
theorem not_mem_lookUps_substituted : ∀ (t : Tree) (skipping : Bool),
    .binding x ∉ (t.substituted x w).lookUps ρ skipping
  | literal v, skipping => List.not_mem_nil
  | named name n, skipping => by
    rw [substituted]
    split
    · exact List.not_mem_nil
    · next hname =>
      rw [lookUps]
      split
      · exact List.not_mem_nil
      · simpa using fun h ↦ hname h.symm
  | call name arguments n, skipping => by
    rw [substituted, lookUps, List.mem_append, Run.mem_andNames]
    rintro (hmem | ⟨vs, -, hmem⟩)
    · exact not_mem_lookUpsAll_substituted arguments skipping hmem
    · split at hmem <;> simp at hmem
  | not operand, skipping => by
    rw [substituted, lookUps]
    exact not_mem_lookUps_substituted operand skipping
  | joined j left right, skipping => by
    rw [substituted, lookUps, List.mem_append, Run.mem_andNames]
    rintro (hmem | ⟨v, -, hmem⟩)
    · exact not_mem_lookUps_substituted left skipping hmem
    · exact not_mem_lookUps_substituted right _ hmem

theorem not_mem_lookUpsAll_substituted : ∀ (ts : List Tree) (skipping : Bool),
    .binding x ∉ lookUpsAll ρ skipping (substitutedAll x w ts)
  | [], skipping => List.not_mem_nil
  | t :: ts, skipping => by
    rw [substitutedAll, lookUpsAll, List.mem_append, Run.mem_andNames]
    rintro (hmem | ⟨v, -, hmem⟩)
    · exact not_mem_lookUps_substituted t skipping hmem
    · exact not_mem_lookUpsAll_substituted ts skipping hmem

end

theorem not_mem_lookUpsDraft_substituted (draft : List Frame) : ∀ skipping : Bool,
    .binding x ∉ lookUpsDraft ρ skipping (draft.map (Frame.substituted x w)) := by
  induction draft with
  | nil => exact fun _ ↦ List.not_mem_nil
  | cons f draft ih =>
    intro skipping
    rw [List.map_cons, lookUpsDraft, List.mem_append, Run.mem_andNames]
    rintro (hmem | ⟨skipping', -, hmem⟩)
    · cases f <;> exact not_mem_lookUps_substituted ρ _ skipping hmem
    · exact ih skipping' hmem

end Tree

theorem not_mem_outcomeLookUps_substituted (ρ : Scope) (o : Except Failure (Part Tree)) :
    .binding x ∉ outcomeLookUps ρ (substitutedOutcome x w (Tree.substituted x w) o) := by
  cases o with
  | ok p => exact not_mem_lookUps_substituted ρ p.value false
  | error f => exact not_mem_lookUpsDraft_substituted ρ f.draft false

/-! ## Tokens -/

section Tokens

variable {x w} {ts : List Token}

theorem front_of_showsVariable (h : ShowsVariable x ts) :
    front (substituted x w ts) = w.mark := by
  cases ts with
  | nil => exact absurd h.1 (by simp [front])
  | cons t ts =>
    rw [substituted, if_pos h]
    rfl

theorem front_of_not_showsVariable (h : ¬ShowsVariable x ts) :
    front (substituted x w ts) = front ts := by
  cases ts with
  | nil => rfl
  | cons t ts =>
    rw [substituted, if_neg h]
    rfl

@[simp] theorem tail_substituted (ts : List Token) :
    (substituted x w ts).tail = substituted x w ts.tail := by
  cases ts <;> rfl

@[simp] theorem length_substituted (ts : List Token) :
    (substituted x w ts).length = ts.length := by
  induction ts with
  | nil => rfl
  | cons t ts ih => rw [substituted, List.length_cons, List.length_cons, ih]

theorem map_offset_substituted (ts : List Token) :
    (substituted x w ts).map Token.offset = ts.map Token.offset := by
  induction ts with
  | nil => rfl
  | cons t ts ih =>
    rw [substituted, List.map_cons, List.map_cons, ih]
    split <;> rfl

@[simp] theorem position_substituted (g : Grammar) (ts : List Token) :
    g.position (substituted x w ts) = g.position ts := by
  cases ts with
  | nil => rfl
  | cons t ts =>
    rw [substituted]
    split <;> rfl

/-- The tokens that are neither names nor literals are in front where they were. -/
theorem front_substituted_eq_iff {k : TokenKind} (hk : k ≠ .identifier x)
    (hliteral : ∀ v : Value, k ≠ v.mark) : front (substituted x w ts) = k ↔ front ts = k := by
  by_cases h : ShowsVariable x ts
  · rw [front_of_showsVariable h, h.1]
    exact ⟨fun heq ↦ absurd heq.symm (hliteral w), fun heq ↦ absurd heq.symm hk⟩
  · rw [front_of_not_showsVariable h]

theorem front_substituted_openParen :
    front (substituted x w ts) = .openParen ↔ front ts = .openParen :=
  front_substituted_eq_iff (by simp) fun v ↦ by cases v <;> simp [Value.mark]

theorem front_beforeEnd (ts : List Token) : front (beforeEnd ts) = front ts := by
  cases ts with
  | nil => rfl
  | cons t ts =>
    by_cases ht : t.kind = .endOfInput
    · rw [beforeEnd_marker ts ht]
      exact ht.symm
    · rw [beforeEnd_cons ts ht]
      rfl

theorem beforeEnd_substituted (tokens : List Token) :
    beforeEnd (substituted x w tokens) = substituted x w (beforeEnd tokens) := by
  induction tokens with
  | nil => rfl
  | cons t ts ih =>
    by_cases ht : t.kind = .endOfInput
    · have hshows : ¬ShowsVariable x (t :: ts) := fun h ↦ absurd (ht.symm.trans h.1) (by simp)
      rw [substituted, if_neg hshows, beforeEnd_marker _ ht, beforeEnd_marker _ ht, substituted]
    · have hshows : ShowsVariable x (t :: beforeEnd ts) ↔ ShowsVariable x (t :: ts) := by
        rw [ShowsVariable, ShowsVariable, List.tail_cons, List.tail_cons, front_beforeEnd]
        rfl
      rw [beforeEnd_cons ts ht, substituted, substituted, ← ih]
      simp only [hshows]
      split
      · exact beforeEnd_cons _ (by cases w <;> simp [Value.mark])
      · exact beforeEnd_cons _ ht

theorem offset_marker_substituted (tokens : List Token) :
    ((substituted x w tokens).find? (·.kind == .endOfInput)).map Token.offset
      = (tokens.find? (·.kind == .endOfInput)).map Token.offset := by
  induction tokens with
  | nil => rfl
  | cons t ts ih =>
    have hmark : (w.mark == .endOfInput) = false := by cases w <;> rfl
    rw [substituted]
    split
    · next h =>
      have ht : t.kind = .identifier x := h.1
      rw [List.find?_cons_of_neg (by simp [hmark]), List.find?_cons_of_neg (by simp [ht]), ih]
    · rw [List.find?_cons, List.find?_cons]
      split
      · rfl
      · exact ih

@[simp] theorem endOffset_substituted (tokens : List Token) :
    endOffset (substituted x w tokens) = endOffset tokens := by
  rw [endOffset_eq, endOffset_eq, offset_marker_substituted, ← List.getLast?_map,
    ← List.getLast?_map, map_offset_substituted]

end Tokens

/-! ## Readers -/

/-- From the tokens with the value in them, the second reader comes to the outcome of the first with
the value in it. -/
def Substitutes {α : Type} (change : α → α) (r r' : Reader α) : Prop :=
  ∀ ts, r' (substituted x w ts) = substitutedOutcome x w change (r ts)

section Readers

variable {x w} {α β : Type} {change : α → α} {change' : β → β}

theorem substitutedOutcome_map_missing (o : Except Failure (Part α)) (n : Nat) :
    substitutedOutcome x w change (o.map fun q ↦ { q with missing := n + q.missing })
      = (substitutedOutcome x w change o).map fun q ↦ { q with missing := n + q.missing } := by
  cases o <;> rfl

theorem substitutes_pure {a b : α} (h : b = change a) :
    Substitutes x w change (pure a) (pure b) := by
  subst h
  exact fun ts ↦ rfl

theorem Substitutes.bind {r r' : Reader α} {next next' : α → Reader β}
    (hr : Substitutes x w change r r')
    (hnext : ∀ a, Substitutes x w change' (next a) (next' (change a))) :
    Substitutes x w change' (r >>= next) (r' >>= next') := by
  intro ts
  rw [bind_apply, bind_apply, hr ts]
  cases r ts with
  | error f => rfl
  | ok p =>
    rw [andThen_ok, substitutedOutcome_map_missing, ← hnext p.value p.rest]
    rfl

theorem Substitutes.within {r r' : Reader α} (hr : Substitutes x w change r r')
    (frames : List Frame) : Substitutes x w change (within frames r)
      (within (frames.map (Frame.substituted x w)) r') := by
  intro ts
  rw [Reader.within, Reader.within, hr ts]
  cases r ts with
  | ok p => rfl
  | error f =>
    exact congrArg (fun draft ↦ Except.error (Failure.mk _ draft _)) List.map_append.symm

theorem substitutes_comma : Substitutes x w id comma comma := by
  intro ts
  have hcomma : front (substituted x w ts) = .comma ↔ front ts = .comma :=
    front_substituted_eq_iff (by simp) fun v ↦ by cases v <;> simp [Value.mark]
  have hafter : afterComma (substituted x w ts) = substituted x w (afterComma ts) := by
    by_cases h : front ts = .comma
    · simp only [afterComma, h, hcomma.mpr h, tail_substituted]
    · have h' := mt hcomma.mp h
      unfold afterComma
      split
      · next hcontra => exact absurd hcontra h'
      · rfl
  rw [comma, comma, hafter]
  rfl

/-- Where arguments end, they end after substituting. -/
theorem endsArguments_substituted (ts : List Token) :
    endsArguments (front (substituted x w ts)) = endsArguments (front ts) := by
  by_cases h : ShowsVariable x ts
  · rw [front_of_showsVariable h, h.1]
    cases w <;> rfl
  · rw [front_of_not_showsVariable h]

theorem substitutes_arguments {argument argument' : Reader Tree}
    (h : Substitutes x w (Tree.substituted x w) argument argument') (n : Nat) :
    Substitutes x w (substitutedAll x w) (arguments argument n) (arguments argument' n) := by
  induction n with
  | zero => exact substitutes_pure rfl
  | succ n ih =>
    intro ts
    have hends' := endsArguments_substituted (x := x) (w := w) ts
    by_cases hends : endsArguments (front ts)
    · rw [arguments_end hends, arguments_end (hends'.trans hends)]
      rfl
    · rw [arguments_more hends, arguments_more (by rwa [hends'])]
      refine h.bind (fun first ↦ substitutes_comma.bind fun _ ↦ ?_) ts
      exact (ih.within [.after first]).bind fun others ↦ substitutes_pure rfl

/-- Neither a name, unless it is a keyword, nor a literal is a joint. -/
theorem atLevel?_substituted (hx : x ∉ reserved) (l : Level) (ts : List Token) :
    Joint.atLevel? l (front (substituted x w ts)) = Joint.atLevel? l (front ts) := by
  have hnone : ∀ k : TokenKind, (∀ j : Joint, k ≠ j.mark) → Joint.atLevel? l k = none :=
    fun k hk ↦ Option.eq_none_iff_forall_ne_some.mpr fun j hj ↦ hk j (Joint.eq_of_atLevel? hj).2
  by_cases h : ShowsVariable x ts
  · have hname : ∀ j : Joint, .identifier x ≠ j.mark := fun j ↦ by
      cases j <;> simp_all [Joint.mark, reserved]
    have hliteral : ∀ j : Joint, w.mark ≠ j.mark := fun j ↦ by
      cases j <;> cases w <;> simp [Joint.mark, Value.mark]
    rw [front_of_showsVariable h, h.1, hnone _ hname, hnone _ hliteral]
  · rw [front_of_not_showsVariable h]

theorem substitutes_rowFrom (hx : x ∉ reserved) (l : Level) {operand operand' : Reader Tree}
    (h : Substitutes x w (Tree.substituted x w) operand operand') (n : Nat) : ∀ left : Tree,
      Substitutes x w (Tree.substituted x w) (rowFrom l operand n left)
        (rowFrom l operand' n (left.substituted x w)) := by
  induction n with
  | zero => exact fun left ↦ substitutes_pure rfl
  | succ n ih =>
    intro left ts
    have hlevel := atLevel?_substituted (w := w) hx l ts
    cases hj : Joint.atLevel? l (front ts) with
    | none =>
      rw [rowFrom_end hj, rowFrom_end (hlevel.trans hj)]
      rfl
    | some j =>
      rw [rowFrom_joint hj, rowFrom_joint (hlevel.trans hj), tail_substituted]
      exact (h.within [.right j left]).bind (fun right ↦ ih (.joined j left right)) ts.tail

theorem substitutes_row (hx : x ∉ reserved) (l : Level) {operand operand' : Reader Tree}
    (h : Substitutes x w (Tree.substituted x w) operand operand') :
    Substitutes x w (Tree.substituted x w) (row l operand) (row l operand') := by
  intro ts
  rw [row, row, length_substituted]
  exact h.bind (fun left ↦ substitutes_rowFrom hx l h ts.length left) ts

end Readers

/-! ## The grammar -/

namespace Grammar

variable {x w} {g : Grammar}

theorem substitutes_tooDeep :
    Substitutes x w (Tree.substituted x w) g.tooDeep g.tooDeep := by
  intro ts
  rw [tooDeep, tooDeep, position_substituted]
  rfl

theorem substitutes_closing : Substitutes x w id g.closing g.closing := by
  intro ts
  have hclose : front (substituted x w ts) = .closeParen ↔ front ts = .closeParen :=
    front_substituted_eq_iff (by simp) fun v ↦ by cases v <;> simp [Value.mark]
  by_cases h : front ts = .closeParen
  · rw [closing_of_closeParen h, closing_of_closeParen (hclose.mpr h), tail_substituted]
    rfl
  · have hmissing : ∀ {us : List Token}, front us ≠ .closeParen → g.closing us
        = if g.strict then .error ⟨.unclosedParen (g.position us), [], us⟩
          else .ok ⟨(), us, 1⟩ := by
      intro us hus
      unfold closing
      split
      · next hcontra => exact absurd hcontra hus
      · rfl
    rw [hmissing h, hmissing (mt hclose.mp h), position_substituted]
    cases g.strict <;> rfl

/-- What is closed off is substituted in as before. -/
theorem substitutes_closed (frames : List Frame) (t : Tree) :
    Substitutes x w (Tree.substituted x w)
      (do
        Reader.within frames g.closing
        return t : Reader Tree)
      (do
        Reader.within (frames.map (Frame.substituted x w)) g.closing
        return t.substituted x w : Reader Tree) :=
  (substitutes_closing.within frames).bind fun _ ↦ substitutes_pure rfl

theorem substitutes_call {group group' : Reader Tree}
    (h : Substitutes x w (Tree.substituted x w) group group') (name : String) (n offset : Nat) :
    Substitutes x w (Tree.substituted x w)
      (do
        let as ← Reader.arguments group n
        Reader.within (as.map .after) g.closing
        return Tree.call name as offset : Reader Tree)
      (do
        let as ← Reader.arguments group' n
        Reader.within (as.map .after) g.closing
        return Tree.call name as offset : Reader Tree) := by
  refine (substitutes_arguments h n).bind fun as ↦ ?_
  have hclosed := substitutes_closed (x := x) (w := w) (g := g) (as.map .after)
    (.call name as offset)
  rw [List.map_map, Tree.substituted, substitutedAll_eq_map] at hclosed
  rw [substitutedAll_eq_map, List.map_map]
  exact hclosed

/-- **An operand is a literal where it was a variable.** -/
theorem substitutes_operand {group group' : Reader Tree}
    (h : Substitutes x w (Tree.substituted x w) group group') :
    Substitutes x w (Tree.substituted x w) (g.operand group) (g.operand group') := by
  intro ts
  by_cases hshows : ShowsVariable x ts
  · rw [operand_literal (front_of_showsVariable hshows), operand_named hshows.1 hshows.2,
      tail_substituted]
    simp only [substitutedOutcome, Tree.substituted, if_true]
  · have hfront' : front (substituted x w ts) = front ts := front_of_not_showsVariable hshows
    have hliteral : ∀ v : Value, front ts = v.mark → g.operand group' (substituted x w ts)
        = substitutedOutcome x w (Tree.substituted x w) (g.operand group ts) := by
      intro v hv
      rw [operand_literal hv, operand_literal (hfront'.trans hv), tail_substituted]
      rfl
    have hrefuse : (front ts).beginsOperand = false → g.operand group' (substituted x w ts)
        = substitutedOutcome x w (Tree.substituted x w) (g.operand group ts) := by
      intro hbegins
      rw [operand_refuse hbegins, operand_refuse (by rwa [hfront']), refuse, refuse, hfront',
        position_substituted]
      rfl
    cases hfront : front ts with
    | number y => exact hliteral (.number y) hfront
    | text s => exact hliteral (.text s) hfront
    | boolean b => exact hliteral (.boolean b) hfront
    | openParen =>
      rw [operand_group hfront, operand_group (hfront'.trans hfront), tail_substituted]
      exact h.bind (fun t ↦ substitutes_closed [.after t] t) ts.tail
    | identifier name =>
      have hopen : front (substituted x w ts.tail) = .openParen ↔ front ts.tail = .openParen :=
        front_substituted_openParen
      by_cases hparen : front ts.tail = .openParen
      · rw [operand_call hfront hparen, operand_call (hfront'.trans hfront)
          (by rw [tail_substituted]; exact hopen.mpr hparen), position_substituted,
          length_substituted, tail_substituted, tail_substituted]
        exact substitutes_call h name ts.length _ ts.tail.tail
      · have hname : name ≠ x := fun hname ↦ hshows ⟨hname ▸ hfront, hparen⟩
        rw [operand_named hfront hparen, operand_named (hfront'.trans hfront)
          (by rw [tail_substituted]; exact mt hopen.mp hparen), position_substituted,
          tail_substituted]
        simp only [substitutedOutcome, Tree.substituted, if_neg hname]
    | operator | closeParen | comma | endOfInput => exact hrefuse (by rw [hfront]; rfl)

variable (hx : x ∉ reserved)

include hx

theorem substitutes_sum {group group' : Reader Tree}
    (h : Substitutes x w (Tree.substituted x w) group group') :
    Substitutes x w (Tree.substituted x w) (g.sum group) (g.sum group') :=
  substitutes_row hx .sum (substitutes_row hx .product (substitutes_operand h))

theorem substitutes_comparison {group group' : Reader Tree}
    (h : Substitutes x w (Tree.substituted x w) group group') :
    Substitutes x w (Tree.substituted x w) (g.comparison group) (g.comparison group') := by
  have hsum := substitutes_sum (g := g) hx h
  exact hsum.bind fun left ↦ substitutes_rowFrom hx .comparison hsum 1 left

theorem substitutes_termOver {negated negated' group group' : Reader Tree}
    (hnegated : Substitutes x w (Tree.substituted x w) negated negated')
    (h : Substitutes x w (Tree.substituted x w) group group') :
    Substitutes x w (Tree.substituted x w) (g.termOver negated group)
      (g.termOver negated' group') := by
  intro ts
  have hkeyword : (front (substituted x w ts)).isKeyword "not" = (front ts).isKeyword "not" := by
    by_cases hshows : ShowsVariable x ts
    · rw [front_of_showsVariable hshows, hshows.1]
      cases w <;> simp_all [Value.mark, TokenKind.isKeyword, reserved]
    · rw [front_of_not_showsVariable hshows]
  rw [termOver, termOver, hkeyword, tail_substituted]
  split
  · refine hnegated.bind (fun t ↦ ?_) ts.tail
    exact substitutes_pure rfl
  · exact substitutes_comparison hx h ts

theorem substitutes_expressionOver {term term' : Reader Tree}
    (h : Substitutes x w (Tree.substituted x w) term term') :
    Substitutes x w (Tree.substituted x w) (expressionOver term) (expressionOver term') :=
  substitutes_row hx .disjunction (substitutes_row hx .conjunction h)

theorem substitutes_term (depth : Nat) :
    Substitutes x w (Tree.substituted x w) (g.term depth) (g.term depth) := by
  induction depth with
  | zero => exact substitutes_termOver hx substitutes_tooDeep substitutes_tooDeep
  | succ depth ih => exact substitutes_termOver hx ih (substitutes_expressionOver hx ih)

theorem substitutes_expression (depth : Nat) :
    Substitutes x w (Tree.substituted x w) (g.expression depth) (g.expression depth) := by
  cases depth with
  | zero => exact substitutes_tooDeep
  | succ depth => exact substitutes_expressionOver hx (substitutes_term hx depth)

omit hx in
/-- The one error that can change: the token that it shows may be left over. -/
theorem substitutes_ending : Substitutes x w id g.ending g.ending := by
  intro ts
  cases ts with
  | nil => rfl
  | cons t ts =>
    have hposition : (if ShowsVariable x (t :: ts) then { t with kind := w.mark } else t).offset
        = t.offset := by split <;> rfl
    rw [substituted, ending, ending, hposition]
    cases g.strict <;> rfl

end Grammar

/-- **With a value in place of a variable, the tokens are read to the tree with the value in it**,
and where the reading failed it fails likewise. -/
theorem Tree.read_substituted {x : String} (hx : x ∉ reserved) (w : Value) (tokens : List Token)
    (strict : Bool) (maxDepth : Nat) : Tree.read (Formula.substituted x w tokens) strict maxDepth
      = substitutedOutcome x w (Tree.substituted x w) (Tree.read tokens strict maxDepth) := by
  rw [Tree.read, Tree.read, beforeEnd_substituted, endOffset_substituted]
  refine (Grammar.substitutes_expression hx maxDepth).bind (fun t ↦ ?_) (beforeEnd tokens)
  refine (Grammar.substitutes_ending.within [.after t]).bind fun _ ↦ ?_
  exact substitutes_pure rfl

end Substituting

/-! ## Whole lists of tokens -/

/-- A name that stands for nothing is no leftover. -/
theorem EvalError.leaving_of_not_isStructural {e : EvalError} (h : e.isStructural = false)
    (ts : List Token) : e.leaving ts = e := by
  cases e with
  | trailingTokens => exact absurd h (by simp [isStructural])
  | _ => rfl

namespace Run

variable {α : Type}

/-- A run that leaves the given tokens if it is stopped. -/
def leaving (ts : List Token) (r : Run α) : Run α := ⟨r.result.mapError (·.leaving ts), r.calls⟩

theorem StopsAtNames.leaving_eq {r : Run α} (h : r.StopsAtNames) (ts : List Token) :
    r.leaving ts = r := by
  obtain ⟨e | a, calls⟩ := r
  · exact congrArg (fun e ↦ Run.mk (.error e) calls) (e.leaving_of_not_isStructural (h e rfl) ts)
  · rfl

end Run

section Whole

variable {x : String} {w : Value}

theorem unread_substitutedOutcome (o : Except Failure (Part Tree)) :
    unread (substitutedOutcome x w (Tree.substituted x w) o) = substituted x w (unread o) := by
  cases o <;> rfl

/-- **What was read with a value in place of a variable is evaluated as if the variable stood
there.** -/
theorem outcomeRun_substituted {ρ : Scope} (hbound : ρ.bindings.get? x = some w)
    (o : Except Failure (Part Tree)) :
    outcomeRun ρ (substitutedOutcome x w (Tree.substituted x w) o)
      = (outcomeRun ρ o).leaving (substituted x w (unread o)) := by
  cases o with
  | ok p =>
    exact (evaluate_substituted hbound p.value).trans
      ((stopsAtNames_evaluate ρ p.value false).leaving_eq _).symm
  | error f =>
    have hnames := stopsAtNames_enterAll ρ f.draft false
    simp only [substitutedOutcome, outcomeRun, Failure.run, enterAll_substituted hbound]
    rcases hdraft : enterAll ρ false f.draft with ⟨e | skipping, calls⟩
    · have he : e.isStructural = false := hnames e (by rw [hdraft])
      rw [Run.bind_error, Run.bind_error]
      exact congrArg (fun e ↦ Run.mk (.error e) calls) (e.leaving_of_not_isStructural he _).symm
    · rfl

variable (tokens : List Token) (bindings : Table Value) (functions : Table Callable)
  (options : Options)

/-- The tokens that are left where a value came out or the form is wrong. -/
theorem unread_eq_of_agrees {o : Except Failure (Part Tree)} {ρ : Scope} {report : Report}
    (h : report.Agrees ρ o) (hform : ∀ e, report.result = .error e → e.isStructural) :
    report.unread = unread o := by
  cases hresult : report.result with
  | ok v =>
    obtain ⟨p, rfl, hunread⟩ := h.unread_of_ok v hresult
    exact hunread
  | error e =>
    obtain ⟨f, rfl, hunread⟩ := h.unread_of_structural e hresult (hform e hresult)
    exact hunread

/-- Without the variable among the tokens, it makes no difference what the variable stands for. -/
theorem run_eq_of_not_mem_lookUps {bindings' : Table Value}
    (hknown : bindings.contains x)
    (hlookUps : .binding x ∉ lookUps tokens bindings functions options)
    (hothers : ∀ name ≠ x, bindings'.get? name = bindings.get? name) :
    (evaluateTokens tokens bindings' functions options).run
      = (evaluateTokens tokens bindings functions options).run := by
  have hresolves := resolves_evaluateTokens tokens bindings bindings' functions functions options
  have hsame : ∀ y ≠ .binding x, Scope.SameAt ⟨bindings, functions, options.shortCircuit⟩
      ⟨bindings', functions, options.shortCircuit⟩ y := by
    rintro (name | name) hy
    · exact hothers name fun hname ↦ hy (congrArg Reference.binding hname)
    · rfl
  cases hresolves.resumes fun y hy _ ↦ hsame y fun heq ↦ hlookUps (heq ▸ hy) with
  | same h => exact h
  | @further y hstopped hknown' =>
    -- what stopped the one evaluation is not the variable, and is missing in the other as well
    have hunknown := hresolves.not_knows y hstopped
    have hy : y ≠ .binding x := by
      rintro rfl
      exact absurd (hknown.symm.trans hunknown) (by simp)
    rw [(hsame y hy).knows_eq] at hknown'
    exact absurd (hknown'.symm.trans hunknown) (by simp)

end Whole

/-- **A variable equals its value written in place.** The calls are the same, and so is the value or
the error; of leftovers, the error shows the token that is left with the value in its place. The
variable is not looked up any more, under any bindings, so it no longer matters what it stands
for. -/
theorem evaluateTokens_substituted {x : String} {w : Value} (hx : x ∉ reserved)
    (tokens : List Token) {bindings : Table Value} (hbound : bindings.get? x = some w)
    (functions : Table Callable) (options : Options) :
    let tokens' := substituted x w tokens
    let report := evaluateTokens tokens bindings functions options
    let report' := evaluateTokens tokens' bindings functions options
    report'.calls = report.calls ∧
      (∀ v, report.result = .ok v →
        report'.result = .ok v ∧ report'.unread = substituted x w report.unread) ∧
      (∀ e, report.result = .error e →
        report'.result = .error (e.leaving (substituted x w report.unread))) ∧
      (∀ k n, report.result = .error (.trailingTokens k n) → k = front report.unread) ∧
      (∀ bindings' functions' options',
        .binding x ∉ lookUps tokens' bindings' functions' options') ∧
      ∀ bindings', (∀ name ≠ x, bindings'.get? name = bindings.get? name) →
        (evaluateTokens tokens' bindings' functions options).run = report'.run := by
  intro tokens' report report'
  let o := Tree.read tokens options.strict options.maxDepth
  have hread : Tree.read tokens' options.strict options.maxDepth
      = substitutedOutcome x w (Tree.substituted x w) o :=
    Tree.read_substituted hx w tokens options.strict options.maxDepth
  have hagrees := agrees_evaluateTokens tokens bindings functions options
  have hagrees' := agrees_evaluateTokens tokens' bindings functions options
  have hruns : report'.run = report.run.leaving (substituted x w (unread o)) := by
    rw [hagrees'.run, hread, outcomeRun_substituted hbound, hagrees.run]
  have hlookUps : ∀ bindings' functions' options',
      .binding x ∉ lookUps tokens' bindings' functions' options' := by
    intro bindings' functions' options'
    rw [lookUps, Tree.read_substituted hx]
    exact not_mem_outcomeLookUps_substituted x w _ _
  have hresult : report'.result
      = report.result.mapError (·.leaving (substituted x w (unread o))) :=
    congrArg Run.result hruns
  refine ⟨congrArg Run.calls hruns, fun v hv ↦ ?_, fun e he ↦ ?_, fun k n he ↦ ?_, hlookUps,
    fun bindings' hothers ↦ ?_⟩
  · have hv' : report'.result = .ok v := by
      rw [hresult, hv]
      rfl
    have hunread := unread_eq_of_agrees hagrees fun e he ↦ absurd (hv.symm.trans he) (by simp)
    have hunread' := unread_eq_of_agrees hagrees' fun e he ↦ absurd (hv'.symm.trans he) (by simp)
    exact ⟨hv', by rw [hunread', hread, unread_substitutedOutcome, ← hunread]⟩
  · have he' : report'.result = .error (e.leaving (substituted x w (unread o))) := by
      rw [hresult, he]
      rfl
    rw [he']
    cases hform : e.isStructural with
    | false =>
      rw [e.leaving_of_not_isStructural hform, e.leaving_of_not_isStructural hform]
    | true =>
      rw [unread_eq_of_agrees hagrees fun e' he' ↦ Except.error.inj (he.symm.trans he') ▸ hform]
  · obtain ⟨f, hf, herror, hunread⟩ := hagrees.eq_error he rfl
    obtain ⟨-, hblames⟩ := Tree.blames_read hf
    rw [herror] at hblames
    rw [hunread]
    generalize f.unread = us at hblames ⊢
    cases hblames with
    | trailing => rfl
  · exact run_eq_of_not_mem_lookUps tokens' bindings functions options
      (by simp [Table.contains, hbound]) (hlookUps bindings functions options) hothers

/-- In `not x(x) x` the first `x` is a function, the second is evaluated, and the third is left
over. -/
theorem evaluateTokens_substituted_leftover :
    let tokens : List Token := [⟨.identifier "not", 0⟩, ⟨.identifier "x", 4⟩, ⟨.openParen, 5⟩,
      ⟨.identifier "x", 6⟩, ⟨.closeParen, 7⟩, ⟨.identifier "x", 9⟩, ⟨.endOfInput, 10⟩]
    let tokens' : List Token := [⟨.identifier "not", 0⟩, ⟨.identifier "x", 4⟩, ⟨.openParen, 5⟩,
      ⟨.text "a", 6⟩, ⟨.closeParen, 7⟩, ⟨.text "a", 9⟩, ⟨.endOfInput, 10⟩]
    let bindings : Table Value := Table.empty.insert "x" (.text "a")
    let functions : Table Callable := Table.empty.insert "x" (.host fun _ ↦ .boolean true)
    let report := evaluateTokens tokens bindings functions { strict := true }
    let report' := evaluateTokens tokens' bindings functions { strict := true }
    "x" ∉ reserved ∧ bindings.get? "x" = some (.text "a") ∧
      substituted "x" (.text "a") tokens = tokens' ∧
      report.result = .error (.trailingTokens (.identifier "x") 9) ∧
      report'.result = .error (.trailingTokens (.text "a") 9) ∧
      report'.calls = [⟨"x", [.text "a"]⟩] := by
  intro tokens tokens' bindings functions report report'
  have hx : "x" ∉ reserved := by decide
  have hbound : bindings.get? "x" = some (.text "a") := rfl
  have htokens : substituted "x" (.text "a") tokens = tokens' := rfl
  have hresult : report.result = .error (.trailingTokens (.identifier "x") 9) := rfl
  obtain ⟨hcalls, -, herror, -⟩ :=
    evaluateTokens_substituted hx tokens hbound functions { strict := true }
  rw [htokens] at hcalls herror
  exact ⟨hx, hbound, htokens, hresult, herror _ hresult, hcalls⟩

end Formula
