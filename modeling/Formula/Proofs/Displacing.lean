import Formula.Proofs.TwoPhases
import Formula.Proofs.Writing

/-!
# Tokens at other offsets

An offset is carried along and never asked for: it goes from a token into a name of the tree or into
an error, and nothing is decided by it. So tokens that are moved to other offsets are read to the
moved tree or fail with the moved error, after the same calls (`evaluateTokens_moved`).

Where tokens end is a matter of what is in front and not of the list. An end marker in front is an
end like that of the list, and what is behind it is out of reach. Two lists are therefore compared
token by token only up to the first place at which both have ended (`Alike`), and the offset of that
place goes along as those of the tokens do. One induction over the grammar, on lists that are alike,
then serves for moved tokens and for tokens behind a marker.
-/

namespace Formula

open Formula.Tree Reader

variable {α β : Type}

/-! ## Moving -/

/-- A token at another offset. -/
def Token.moved (f : Nat → Nat) (t : Token) : Token := { t with offset := f t.offset }

/-- An error that is reported at another offset. -/
def EvalError.moved (f : Nat → Nat) : EvalError → EvalError
  | undefinedVariable name n => undefinedVariable name (f n)
  | undefinedFunction name n => undefinedFunction name (f n)
  | unexpectedToken token n => unexpectedToken token (f n)
  | depthExceeded limit n => depthExceeded limit (f n)
  | unclosedParen n => unclosedParen (f n)
  | trailingTokens token n => trailingTokens token (f n)

namespace Tree

mutual

/-- A tree whose names stand at other offsets. -/
def moved (f : Nat → Nat) : Tree → Tree
  | literal v => literal v
  | named name n => named name (f n)
  | call name arguments n => call name (movedAll f arguments) (f n)
  | not operand => not (moved f operand)
  | joined j left right => joined j (moved f left) (moved f right)

def movedAll (f : Nat → Nat) : List Tree → List Tree
  | [] => []
  | t :: ts => moved f t :: movedAll f ts

end

def Frame.moved (f : Nat → Nat) : Frame → Frame
  | after t => after (t.moved f)
  | right j left => right j (left.moved f)

theorem movedAll_eq_map (f : Nat → Nat) (ts : List Tree) : movedAll f ts = ts.map (moved f) := by
  induction ts with
  | nil => rfl
  | cons t ts ih => rw [movedAll, ih, List.map_cons]

end Tree

/-- A run that is stopped, if at all, at another offset. -/
def Run.moved (f : Nat → Nat) (r : Run α) : Run α := ⟨r.result.mapError (·.moved f), r.calls⟩

theorem Run.moved_bind (f : Nat → Nat) (r : Run α) (next : α → Run β) :
    (r >>= next).moved f = r.moved f >>= fun a ↦ (next a).moved f := by
  obtain ⟨e | a, calls⟩ := r <;> rfl

namespace Tree

variable (f : Nat → Nat) (ρ : Scope)

theorem lookUp_moved (skipping : Bool) (name : String) (n : Nat) :
    ρ.lookUp skipping name (f n) = (ρ.lookUp skipping name n).moved f := by
  unfold Scope.lookUp
  cases skipping with
  | true => rfl
  | false => cases ρ.bindings.get? name <;> rfl

theorem call_moved (skipping : Bool) (name : String) (vs : List Value) (n : Nat) :
    ρ.call skipping name vs (f n) = (ρ.call skipping name vs n).moved f := by
  unfold Scope.call
  cases skipping with
  | true => rfl
  | false => cases ρ.functions.get? name <;> rfl

mutual

/-- **A tree at other offsets has the same value**, and an error at its other offset. -/
theorem evaluate_moved : ∀ (t : Tree) (skipping : Bool),
    (t.moved f).evaluate ρ skipping = (t.evaluate ρ skipping).moved f
  | literal v, skipping => rfl
  | named name n, skipping => lookUp_moved f ρ skipping name n
  | call name arguments n, skipping => by
    rw [moved, evaluate, evaluate, evaluateAll_moved arguments skipping, Run.moved_bind]
    simp only [call_moved]
  | not operand, skipping => by
    rw [moved, evaluate, evaluate, evaluate_moved operand skipping, Run.moved_bind]
    rfl
  | joined j left right, skipping => by
    rw [moved, evaluate, evaluate, evaluate_moved left skipping, Run.moved_bind]
    simp only [evaluate_moved right, Run.moved_bind]
    rfl

theorem evaluateAll_moved : ∀ (ts : List Tree) (skipping : Bool),
    evaluateAll ρ skipping (movedAll f ts) = (evaluateAll ρ skipping ts).moved f
  | [], skipping => rfl
  | t :: ts, skipping => by
    rw [movedAll, evaluateAll, evaluateAll, evaluate_moved t skipping, Run.moved_bind]
    simp only [evaluateAll_moved ts, Run.moved_bind]
    rfl

end

theorem enter_moved (fr : Frame) (skipping : Bool) :
    (fr.moved f).enter ρ skipping = (fr.enter ρ skipping).moved f := by
  cases fr with
  | after t => rw [Frame.moved, Frame.enter, Frame.enter, evaluate_moved, Run.moved_bind]; rfl
  | right j left => rw [Frame.moved, Frame.enter, Frame.enter, evaluate_moved, Run.moved_bind]; rfl

theorem enterAll_moved (draft : List Frame) : ∀ skipping : Bool,
    enterAll ρ skipping (draft.map (Frame.moved f)) = (enterAll ρ skipping draft).moved f := by
  induction draft with
  | nil => exact fun skipping ↦ rfl
  | cons fr draft ih =>
    intro skipping
    rw [List.map_cons, enterAll_cons, enterAll_cons, enter_moved, Run.moved_bind]
    simp only [ih]

end Tree

/-! ## Alike -/

section Alike

variable (g g' : Grammar) (f : Nat → Nat)

/-- The second list shows the tokens of the first one, moved, up to where both have ended. -/
inductive Alike : List Token → List Token → Prop
  | ended {ts ts' : List Token} (h : front ts = .endOfInput) (h' : front ts' = .endOfInput)
    (hposition : g'.position ts' = f (g.position ts)) : Alike ts ts'
  | token (t : Token) {ts ts' : List Token} (h : Alike ts ts') : Alike (t :: ts) (t.moved f :: ts')

/-- The second outcome is the first one, moved, and leaves tokens that are alike. -/
inductive AlikeOutcome (change : α → α) :
    Except Failure (Part α) → Except Failure (Part α) → Prop
  | read (a : α) (n : Nat) {ts ts' : List Token} (h : Alike g g' f ts ts') :
    AlikeOutcome change (.ok ⟨a, ts, n⟩) (.ok ⟨change a, ts', n⟩)
  | failed (e : EvalError) (draft : List Frame) {us us' : List Token} (h : Alike g g' f us us') :
    AlikeOutcome change (.error ⟨e, draft, us⟩)
      (.error ⟨e.moved f, draft.map (Frame.moved f), us'⟩)

/-- On tokens that are alike, readers come to outcomes that are alike. -/
def Echoes (change : α → α) (r r' : Reader α) : Prop :=
  ∀ ts ts', Alike g g' f ts ts' → AlikeOutcome g g' f change (r ts) (r' ts')

variable {g g' f}

theorem Alike.front_eq {ts ts' : List Token} (h : Alike g g' f ts ts') : front ts' = front ts := by
  cases h with
  | ended h h' => rw [h, h']
  | token t h => rfl

theorem Alike.position_eq {ts ts' : List Token} (h : Alike g g' f ts ts') :
    g'.position ts' = f (g.position ts) := by
  cases h with
  | ended _ _ hposition => exact hposition
  | token t h => rfl

/-- Behind a token, the lists are alike again. -/
theorem Alike.tail {ts ts' : List Token} (h : Alike g g' f ts ts')
    (hfront : front ts ≠ .endOfInput) : Alike g g' f ts.tail ts'.tail := by
  cases h with
  | ended h => exact absurd h hfront
  | token t h => exact h

theorem AlikeOutcome.map_missing {change : α → α} {o o' : Except Failure (Part α)}
    (h : AlikeOutcome g g' f change o o') (n : Nat) : AlikeOutcome g g' f change
      (o.map fun q ↦ { q with missing := n + q.missing })
      (o'.map fun q ↦ { q with missing := n + q.missing }) := by
  cases h with
  | read a m h => exact .read a (n + m) h
  | failed e draft h => exact .failed e draft h

/-! ### Readers -/

section Readers

variable {change : α → α} {change' : β → β}

theorem echoes_pure {a b : α} (h : b = change a) : Echoes g g' f change (pure a) (pure b) := by
  subst h
  exact fun ts ts' hts ↦ .read a 0 hts

theorem Echoes.bind {r r' : Reader α} {next next' : α → Reader β}
    (hr : Echoes g g' f change r r')
    (hnext : ∀ a, Echoes g g' f change' (next a) (next' (change a))) :
    Echoes g g' f change' (r >>= next) (r' >>= next') := by
  intro ts ts' hts
  have hfirst := hr ts ts' hts
  rw [bind_apply, bind_apply]
  generalize r ts = o at hfirst
  generalize r' ts' = o' at hfirst
  cases hfirst with
  | read a n hrest =>
    rw [andThen_ok, andThen_ok]
    exact (hnext a _ _ hrest).map_missing n
  | failed e draft hus => exact .failed e draft hus

theorem Echoes.within {r r' : Reader α} (hr : Echoes g g' f change r r') (frames : List Frame) :
    Echoes g g' f change (within frames r) (within (frames.map (Frame.moved f)) r') := by
  intro ts ts' hts
  have hfirst := hr ts ts' hts
  unfold Reader.within
  generalize r ts = o at hfirst
  generalize r' ts' = o' at hfirst
  cases hfirst with
  | read a n hrest => exact .read a n hrest
  | failed e draft hus =>
    have hfailed : AlikeOutcome g g' f change _ _ := .failed e (frames ++ draft) hus
    rw [List.map_append] at hfailed
    exact hfailed

theorem echoes_comma : Echoes g g' f id comma comma := by
  intro ts ts' hts
  rw [comma, comma, afterComma, afterComma, hts.front_eq]
  by_cases hfront : front ts = .comma
  · simp only [hfront]
    exact .read () 0 (hts.tail (by simp [hfront]))
  · split
    · next h => exact absurd h hfront
    · exact .read () 0 hts

theorem echoes_rowFrom (l : Level) {operand operand' : Reader Tree}
    (h : Echoes g g' f (Tree.moved f) operand operand') (n : Nat) : ∀ left : Tree,
      Echoes g g' f (Tree.moved f) (rowFrom l operand n left)
        (rowFrom l operand' n (left.moved f)) := by
  induction n with
  | zero => exact fun left ↦ echoes_pure rfl
  | succ n ih =>
    intro left ts ts' hts
    cases hj : Joint.atLevel? l (front ts) with
    | none =>
      rw [rowFrom_end hj, rowFrom_end (by rw [hts.front_eq, hj])]
      exact .read left 0 hts
    | some j =>
      rw [rowFrom_joint hj, rowFrom_joint (by rw [hts.front_eq, hj])]
      exact (h.within [.right j left]).bind (fun right ↦ ih (.joined j left right)) _ _
        (hts.tail (Joint.ne_endOfInput hj))

theorem echoes_row (l : Level) {operand operand' : Reader Tree}
    (h : Echoes g g' f (Tree.moved f) operand operand') (hkeeps : operand.Keeps)
    (hkeeps' : operand'.Keeps) :
    Echoes g g' f (Tree.moved f) (row l operand) (row l operand') := by
  intro ts ts' hts
  -- the lists may be of different length, and either count covers both
  rw [row_eq l hkeeps (Nat.le_max_left ts.length ts'.length),
    row_eq l hkeeps' (Nat.le_max_right ts.length ts'.length)]
  exact h.bind (fun left ↦ echoes_rowFrom l h _ left) ts ts' hts

theorem echoes_arguments {argument argument' : Reader Tree}
    (h : Echoes g g' f (Tree.moved f) argument argument') (n : Nat) :
    Echoes g g' f (Tree.movedAll f) (arguments argument n) (arguments argument' n) := by
  induction n with
  | zero => exact echoes_pure rfl
  | succ n ih =>
    intro ts ts' hts
    by_cases hends : endsArguments (front ts)
    · rw [arguments_end hends, arguments_end (by rw [hts.front_eq]; exact hends)]
      exact .read [] 0 hts
    · rw [arguments_more hends, arguments_more (by rw [hts.front_eq]; exact hends)]
      refine h.bind (fun first ↦ echoes_comma.bind fun _ ↦ ?_) ts ts' hts
      exact (ih.within [.after first]).bind fun others ↦ echoes_pure rfl

end Readers

end Alike

/-! ### The grammar -/

namespace Grammar

variable {g g' : Grammar} {f : Nat → Nat}

theorem echoes_refuse : Echoes g g' f (Tree.moved f) g.refuse g'.refuse := by
  intro ts ts' hts
  rw [refuse, refuse, hts.front_eq, hts.position_eq]
  exact .failed (.unexpectedToken (front ts) (g.position ts)) [] hts

theorem echoes_tooDeep (hlimit : g'.maxDepth = g.maxDepth) :
    Echoes g g' f (Tree.moved f) g.tooDeep g'.tooDeep := by
  intro ts ts' hts
  rw [tooDeep, tooDeep, hlimit, hts.position_eq]
  exact .failed (.depthExceeded g.maxDepth (g.position ts)) [] hts

theorem echoes_closing (hstrict : g'.strict = g.strict) :
    Echoes g g' f id g.closing g'.closing := by
  intro ts ts' hts
  have hmissing : AlikeOutcome g g' f id
      (if g.strict then .error ⟨.unclosedParen (g.position ts), [], ts⟩ else .ok ⟨(), ts, 1⟩)
      (if g.strict then .error ⟨.unclosedParen (f (g.position ts)), [], ts'⟩
      else .ok ⟨(), ts', 1⟩) := by
    split
    · exact .failed (.unclosedParen (g.position ts)) [] hts
    · exact .read () 1 hts
  unfold closing
  rw [hts.front_eq, hstrict, hts.position_eq]
  cases hfront : front ts with
  | closeParen => exact .read () 0 (hts.tail (by simp [hfront]))
  | _ => exact hmissing

/-- What is closed off is moved as it was. -/
theorem echoes_closed {c c' : Reader Unit} (hc : Echoes g g' f id c c') (frames : List Frame)
    (t : Tree) : Echoes g g' f (Tree.moved f)
      (do
        Reader.within frames c
        return t : Reader Tree)
      (do
        Reader.within (frames.map (Frame.moved f)) c'
        return t.moved f : Reader Tree) :=
  (hc.within frames).bind fun _ ↦ echoes_pure rfl

theorem echoes_operand (hstrict : g'.strict = g.strict) {group group' : Reader Tree}
    (h : Echoes g g' f (Tree.moved f) group group') (hadvances : group.Advances)
    (hadvances' : group'.Advances) :
    Echoes g g' f (Tree.moved f) (g.operand group) (g'.operand group') := by
  intro ts ts' hts
  have hclosing := echoes_closing (f := f) hstrict
  have hliteral : ∀ v : Value, front ts ≠ .endOfInput → AlikeOutcome g g' f (Tree.moved f)
      (.ok ⟨Tree.literal v, ts.tail, 0⟩) (.ok ⟨Tree.literal v, ts'.tail, 0⟩) :=
    fun v hfront ↦ .read (Tree.literal v) 0 (hts.tail hfront)
  unfold operand
  rw [hts.front_eq]
  cases hfront : front ts with
  | number x => exact hliteral (.number x) (by simp [hfront])
  | text s => exact hliteral (.text s) (by simp [hfront])
  | boolean b => exact hliteral (.boolean b) (by simp [hfront])
  | openParen =>
    exact h.bind (fun t ↦ echoes_closed hclosing [.after t] t) _ _ (hts.tail (by simp [hfront]))
  | identifier name =>
    have htail := hts.tail (by simp [hfront])
    simp only [htail.front_eq, hts.position_eq]
    cases hparen : front ts.tail with
    | openParen =>
      have hcount := arguments_count hadvances ts.length (max ts.length ts'.length) ts.tail.tail
      have hcount' := arguments_count hadvances' ts'.length (max ts.length ts'.length) ts'.tail.tail
      have hcall : ∀ n, Echoes g g' f (Tree.moved f)
          (do
            let as ← Reader.arguments group n
            Reader.within (as.map .after) g.closing
            return Tree.call name as (g.position ts))
          (do
            let as ← Reader.arguments group' n
            Reader.within (as.map .after) g'.closing
            return Tree.call name as (f (g.position ts))) := by
        intro n
        refine (echoes_arguments h n).bind fun as ↦ ?_
        have hclosed := echoes_closed hclosing (as.map .after) (.call name as (g.position ts))
        rw [List.map_map] at hclosed
        rw [movedAll_eq_map, List.map_map]
        rw [Tree.moved, movedAll_eq_map] at hclosed
        exact hclosed
      simp only [bind_apply]
      rw [hcount (by simp; omega) (by simp; omega), hcount' (by simp; omega) (by simp; omega)]
      exact hcall _ _ _ (htail.tail (by simp [hparen]))
    | _ => exact .read (Tree.named name (g.position ts)) 0 htail
  | operator | closeParen | comma | endOfInput => exact echoes_refuse ts ts' hts

theorem echoes_sum (hstrict : g'.strict = g.strict) {group group' : Reader Tree}
    (h : Echoes g g' f (Tree.moved f) group group') (hadvances : group.Advances)
    (hadvances' : group'.Advances) :
    Echoes g g' f (Tree.moved f) (g.sum group) (g'.sum group') := by
  have hoperand := g.advances_operand hadvances.keeps
  have hoperand' := g'.advances_operand hadvances'.keeps
  exact echoes_row .sum
    (echoes_row .product (echoes_operand hstrict h hadvances hadvances') hoperand.keeps
      hoperand'.keeps)
    (advances_row .product hoperand).keeps (advances_row .product hoperand').keeps

theorem echoes_comparison (hstrict : g'.strict = g.strict) {group group' : Reader Tree}
    (h : Echoes g g' f (Tree.moved f) group group') (hadvances : group.Advances)
    (hadvances' : group'.Advances) :
    Echoes g g' f (Tree.moved f) (g.comparison group) (g'.comparison group') := by
  have hsum := echoes_sum hstrict h hadvances hadvances'
  exact hsum.bind fun left ↦ echoes_rowFrom .comparison hsum 1 left

theorem echoes_termOver (hstrict : g'.strict = g.strict)
    {negated negated' group group' : Reader Tree}
    (hnegated : Echoes g g' f (Tree.moved f) negated negated')
    (h : Echoes g g' f (Tree.moved f) group group') (hadvances : group.Advances)
    (hadvances' : group'.Advances) :
    Echoes g g' f (Tree.moved f) (g.termOver negated group) (g'.termOver negated' group') := by
  intro ts ts' hts
  unfold termOver
  rw [hts.front_eq]
  by_cases hnot : (front ts).isKeyword "not" = true
  · rw [if_pos hnot, if_pos hnot]
    have hfront := TokenKind.eq_of_isKeyword hnot
    refine hnegated.bind (fun t ↦ ?_) _ _ (hts.tail (by simp [hfront]))
    exact echoes_pure rfl
  · rw [if_neg hnot, if_neg hnot]
    exact echoes_comparison hstrict h hadvances hadvances' ts ts' hts

theorem echoes_expressionOver {term term' : Reader Tree}
    (h : Echoes g g' f (Tree.moved f) term term') (hadvances : term.Advances)
    (hadvances' : term'.Advances) :
    Echoes g g' f (Tree.moved f) (expressionOver term) (expressionOver term') :=
  echoes_row .disjunction (echoes_row .conjunction h hadvances.keeps hadvances'.keeps)
    (advances_row .conjunction hadvances).keeps (advances_row .conjunction hadvances').keeps

theorem echoes_term (hstrict : g'.strict = g.strict) (hlimit : g'.maxDepth = g.maxDepth)
    (depth : Nat) : Echoes g g' f (Tree.moved f) (g.term depth) (g'.term depth) := by
  have htooDeep := echoes_tooDeep (f := f) hlimit
  induction depth with
  | zero =>
    exact echoes_termOver hstrict htooDeep htooDeep g.advances_tooDeep g'.advances_tooDeep
  | succ depth ih =>
    have hadvances := g.advances_term depth
    have hadvances' := g'.advances_term depth
    exact echoes_termOver hstrict ih (echoes_expressionOver ih hadvances hadvances')
      (advances_expressionOver hadvances) (advances_expressionOver hadvances')

/-- **From tokens that are alike, expressions are read alike.** -/
theorem echoes_expression (hstrict : g'.strict = g.strict) (hlimit : g'.maxDepth = g.maxDepth)
    (depth : Nat) : Echoes g g' f (Tree.moved f) (g.expression depth) (g'.expression depth) := by
  cases depth with
  | zero => exact echoes_tooDeep hlimit
  | succ depth =>
    exact echoes_expressionOver (echoes_term hstrict hlimit depth) (g.advances_term depth)
      (g'.advances_term depth)

/-! ### Whole lists of tokens -/

variable (g)

/-- An end is in front, of the list or a marker, unless leftovers are ignored. -/
def finishing : Reader Unit := fun ts ↦
  match front ts with
  | .endOfInput => .ok ⟨(), ts, 0⟩
  | k => if g.strict then .error ⟨.trailingTokens k (g.position ts), [], ts⟩ else .ok ⟨(), ts, 0⟩

/-- Reads the tree of tokens among which markers may stand. -/
def whole : Reader Tree := do
  let t ← g.expression g.maxDepth
  within [.after t] g.finishing
  return t

/-- Where no marker stands, only the list ends. -/
theorem finishing_eq_ending {ts : List Token} (h : Endless ts) : g.finishing ts = g.ending ts := by
  cases ts with
  | nil => rfl
  | cons t ts =>
    have hfront : front (t :: ts) ≠ .endOfInput := h t List.mem_cons_self
    unfold finishing
    split
    · next hend => exact absurd hend hfront
    · rfl

variable {g}

theorem echoes_finishing (hstrict : g'.strict = g.strict) :
    Echoes g g' f id g.finishing g'.finishing := by
  intro ts ts' hts
  unfold finishing
  rw [hts.front_eq, hstrict, hts.position_eq]
  split
  · exact .read () 0 hts
  · split
    · exact .failed (.trailingTokens (front ts) (g.position ts)) [] hts
    · exact .read () 0 hts

theorem echoes_whole (hstrict : g'.strict = g.strict) (hlimit : g'.maxDepth = g.maxDepth) :
    Echoes g g' f (Tree.moved f) g.whole g'.whole := by
  rw [whole, whole, hlimit]
  exact (echoes_expression hstrict hlimit g.maxDepth).bind fun t ↦
    echoes_closed (echoes_finishing hstrict) [.after t] t

end Grammar

theorem endless_beforeEnd (tokens : List Token) : Endless (beforeEnd tokens) :=
  fun t ht ↦ bne_iff_ne.mp (List.all_eq_true.mp List.all_takeWhile t ht)

/-- The tree of a list is that of its tokens in front of the first marker. -/
theorem Tree.read_eq_whole (tokens : List Token) (strict : Bool) (maxDepth : Nat) :
    Tree.read tokens strict maxDepth
      = Grammar.whole ⟨strict, maxDepth, endOffset tokens⟩ (beforeEnd tokens) := by
  rw [Tree.read, Grammar.whole, bind_apply, bind_apply]
  cases hp : Grammar.expression ⟨strict, maxDepth, endOffset tokens⟩ maxDepth
      (beforeEnd tokens) with
  | error f => rfl
  | ok p =>
    have hsuffix := (Grammar.advances_expression _ _).keeps _ _ hp
    have hendless : Endless p.rest := fun t ht ↦ endless_beforeEnd tokens t (hsuffix.subset ht)
    have hending := Grammar.finishing_eq_ending ⟨strict, maxDepth, endOffset tokens⟩ hendless
    simp only [andThen_ok, bind_apply, within, hending]

/-- What is read alike comes to runs that are alike. -/
theorem AlikeOutcome.outcomeRun_eq {g g' : Grammar} {f : Nat → Nat}
    {o o' : Except Failure (Part Tree)} (h : AlikeOutcome g g' f (Tree.moved f) o o')
    (ρ : Scope) : outcomeRun ρ o' = (outcomeRun ρ o).moved f := by
  cases h with
  | read t n h => exact evaluate_moved f ρ t false
  | failed e draft h =>
    rw [outcomeRun, outcomeRun, Failure.run, Failure.run, enterAll_moved, Run.moved_bind]
    rfl

/-- Tokens that are moved are alike. -/
theorem alike_map {g g' : Grammar} {f : Nat → Nat} (hend : g'.endOffset = f g.endOffset)
    (ts : List Token) : Alike g g' f ts (ts.map (Token.moved f)) := by
  induction ts with
  | nil => exact .ended rfl rfl hend
  | cons t ts ih => exact .token t ih

section Whole

variable {tokens : List Token} (f : Nat → Nat)

theorem beforeEnd_map (tokens : List Token) :
    beforeEnd (tokens.map (Token.moved f)) = (beforeEnd tokens).map (Token.moved f) := by
  rw [beforeEnd, beforeEnd, List.takeWhile_map]
  rfl

theorem endOffset_map (h : tokens ≠ []) :
    endOffset (tokens.map (Token.moved f)) = f (endOffset tokens) := by
  have hfind : (tokens.map (Token.moved f)).find? (·.kind == .endOfInput)
      = (tokens.find? (·.kind == .endOfInput)).map (Token.moved f) := List.find?_map
  rw [endOffset, endOffset, hfind]
  cases tokens.find? (·.kind == .endOfInput) with
  | some t => rfl
  | none =>
    rw [Option.map_none, List.getLast?_map, List.getLast?_eq_some_getLast h]
    rfl

/-- **Tokens at other offsets are evaluated alike.** The value is the same, an error is reported at
its other offset, and the calls are the same either way. -/
theorem evaluateTokens_moved (h : tokens ≠ []) (bindings : Table Value)
    (functions : Table Callable) (options : Options) :
    (evaluateTokens (tokens.map (Token.moved f)) bindings functions options).run
      = (evaluateTokens tokens bindings functions options).run.moved f := by
  have hagrees := agrees_evaluateTokens tokens bindings functions options
  have hagrees' := agrees_evaluateTokens (tokens.map (Token.moved f)) bindings functions options
  rw [hagrees.run, hagrees'.run, Tree.read_eq_whole, Tree.read_eq_whole, beforeEnd_map]
  refine (Grammar.echoes_whole ?_ ?_ _ _ (alike_map ?_ _)).outcomeRun_eq _
  · rfl
  · rfl
  · exact endOffset_map f h

end Whole

end Formula
