import Formula.Proofs.Leftovers
import Formula.Proofs.Respacing
import Formula.Proofs.Routes

/-!
# A minus that becomes a sign

Blanks between a minus and a number tell a difference from a negative number, but only where both
are possible. Where the blanks are left out and the number takes the minus for its sign, the minus
stands where only a value can, and a minus is no value: an evaluation that has come as far fails.
So one that succeeds has stopped before, and what it left over begins in front of the token that
asks for the value (`Grammar.leaves_expression`). What is left over does not count but for its first
token, which is not the minus (`evaluateTokens_unreached`). In all other places the minus stays what
it is, and nothing happens but that the tokens behind it move.
-/

namespace Formula

open Formula.Tree Reader

variable {α β : Type}

/-! ## A place that is never reached -/

/-- Of lists with the property `P`, a reader leaves lists with the property `Q`. -/
def Reader.Leaves (P Q : List Token → Prop) (r : Reader α) : Prop :=
  ∀ ts p, r ts = .ok p → P ts → Q p.rest

namespace Reader

variable {P Q R : List Token → Prop}

theorem leaves_pure (a : α) : (pure a : Reader α).Leaves P P := by
  intro ts p hp hts
  obtain rfl := Except.ok.inj hp
  exact hts

theorem Leaves.bind {r : Reader α} {next : α → Reader β} (hr : r.Leaves P Q)
    (hnext : ∀ a, (next a).Leaves Q R) : (r >>= next).Leaves P R := by
  intro ts p hp hts
  obtain ⟨q, p', hq, hp', rfl⟩ := andThen_eq_ok hp
  exact hnext _ _ p' hp' (hr ts q hq hts)

theorem Leaves.within {r : Reader α} (h : r.Leaves P Q) (frames : List Frame) :
    (within frames r).Leaves P Q :=
  fun ts p hp ↦ h ts p (within_eq_ok.mp hp)

end Reader

/-- The token `t` is still ahead, with what is behind it. -/
def Ahead (t : Token) (behind ts : List Token) : Prop := t :: behind <:+ ts

/-- The token `t` is still ahead or was the last one to be taken. -/
def Reached (t : Token) (behind ts : List Token) : Prop := ts = behind ∨ Ahead t behind ts

section Unreached

variable {t : Token} {behind ts : List Token}

/-- The token that is taken is `t`, or `t` is ahead of it. -/
theorem Ahead.tail_cases (h : Ahead t behind ts) :
    (front ts = t.kind ∧ ts.tail = behind) ∨ Ahead t behind ts.tail := by
  cases ts with
  | nil => exact absurd (List.suffix_nil.mp h) (by simp)
  | cons u us =>
    rcases List.suffix_cons_iff.mp h with heq | hsuffix
    · obtain ⟨rfl, rfl⟩ := List.cons.inj heq
      exact .inl ⟨rfl, rfl⟩
    · exact .inr hsuffix

theorem Ahead.tail (h : Ahead t behind ts) : Reached t behind ts.tail :=
  h.tail_cases.imp_left And.right

/-- A token behind which something other than a value can follow is not `t`. -/
theorem Ahead.tail_of_not (h : Ahead t behind ts) (ht : BeforeValue (some t.kind))
    (hfront : ¬BeforeValue (some (front ts))) : Ahead t behind ts.tail :=
  h.tail_cases.resolve_left fun hcases ↦ hfront (hcases.1 ▸ ht)

theorem leaves_comma : comma.Leaves (Ahead t behind) (Reached t behind) := by
  intro ts p hp hts
  obtain rfl := Except.ok.inj hp
  dsimp only [afterComma]
  split
  · exact hts.tail
  · exact .inr hts

theorem leaves_rowFrom (l : Level) {operand : Reader Tree}
    (hoperand : operand.Leaves (Reached t behind) (Ahead t behind)) (n : Nat) :
    ∀ left : Tree, (rowFrom l operand n left).Leaves (Ahead t behind) (Ahead t behind) := by
  induction n with
  | zero => exact fun left ↦ leaves_pure left
  | succ n ih =>
    intro left ts p hp hts
    cases hj : Joint.atLevel? l (front ts) with
    | none =>
      rw [rowFrom_end hj] at hp
      obtain rfl := Except.ok.inj hp
      exact hts
    | some j =>
      rw [rowFrom_joint hj] at hp
      exact ((hoperand.within _).bind fun right ↦ ih _) _ p hp hts.tail

theorem leaves_row (l : Level) {operand : Reader Tree}
    (hoperand : operand.Leaves (Reached t behind) (Ahead t behind)) :
    (row l operand).Leaves (Reached t behind) (Ahead t behind) :=
  fun ts p hp ↦ (hoperand.bind (leaves_rowFrom l hoperand ts.length)) ts p hp

/-- Arguments go on until a bracket or the end, so they do not stop at `behind`. -/
theorem leaves_arguments (hgoes : ¬endsArguments (front behind)) {argument : Reader Tree}
    (hadvances : argument.Advances)
    (hargument : argument.Leaves (Reached t behind) (Ahead t behind)) (n : Nat) :
    (arguments argument n).Leaves (fun ts ↦ ts.length ≤ n ∧ Reached t behind ts)
      (Ahead t behind) := by
  -- `behind` is no end, so where arguments end `t` is still ahead
  have hstops : ∀ {ts : List Token}, endsArguments (front ts) → Reached t behind ts →
      Ahead t behind ts := by
    rintro ts hends (rfl | hts)
    · exact absurd hends hgoes
    · exact hts
  induction n with
  | zero =>
    rintro ts p hp ⟨hn, hts⟩
    obtain rfl := List.eq_nil_of_length_eq_zero (Nat.le_zero.mp hn)
    obtain rfl := Except.ok.inj hp
    exact hstops rfl hts
  | succ n ih =>
    rintro ts p hp ⟨hn, hts⟩
    by_cases hends : endsArguments (front ts)
    · rw [arguments_end hends] at hp
      obtain rfl := Except.ok.inj hp
      exact hstops hends hts
    · rw [arguments_more hends] at hp
      have hfirst : argument.Leaves (fun ts ↦ ts.length ≤ n + 1 ∧ Reached t behind ts)
          (fun ts ↦ ts.length ≤ n ∧ Ahead t behind ts) := fun ts p hp ⟨hn, hts⟩ ↦
        ⟨Nat.le_of_lt_succ (Nat.lt_of_lt_of_le (hadvances.length_lt hp) hn), hargument ts p hp hts⟩
      have hcomma : comma.Leaves (fun ts ↦ ts.length ≤ n ∧ Ahead t behind ts)
          (fun ts ↦ ts.length ≤ n ∧ Reached t behind ts) := fun ts p hp ⟨hn, hts⟩ ↦
        ⟨Nat.le_trans (keeps_comma ts p hp).length_le hn, leaves_comma ts p hp hts⟩
      exact (hfirst.bind fun first ↦ hcomma.bind fun _ ↦ (ih.within _).bind fun others ↦
        leaves_pure _) ts p hp ⟨hn, hts⟩

namespace Grammar

variable (g : Grammar)

theorem leaves_tooDeep : (g.tooDeep : Reader Tree).Leaves (Reached t behind) (Ahead t behind) :=
  fun _ _ hp _ ↦ absurd hp (by simp [tooDeep])

section BeforeValue

variable (ht : BeforeValue (some t.kind))

include ht

theorem leaves_closing : g.closing.Leaves (Ahead t behind) (Ahead t behind) := by
  intro ts p hp hts
  rcases closing_cases hp with ⟨hclose, rfl⟩ | ⟨-, -, rfl⟩
  · exact hts.tail_of_not ht (by rw [hclose]; rintro ⟨⟩)
  · exact hts

/-- What is closed off is left as it was before the bracket. -/
theorem leaves_closed (frames : List Frame) (a : α) : Leaves (Ahead t behind)
    (Ahead t behind) (do
      Reader.within frames g.closing
      return a : Reader α) :=
  ((leaves_closing g ht).within frames).bind fun _ ↦ leaves_pure a

variable (hrefused : (front behind).beginsOperand = false)
  (hgoes : ¬endsArguments (front behind))

include hrefused hgoes

/-- No operand begins with what is behind `t`, and no operand is `t`. -/
theorem leaves_operand {group : Reader Tree} (hadvances : group.Advances)
    (hgroup : group.Leaves (Reached t behind) (Ahead t behind)) :
    (g.operand group).Leaves (Reached t behind) (Ahead t behind) := by
  rintro ts p hp (rfl | hts)
  · rw [operand_refuse hrefused] at hp
    exact absurd hp (by simp [refuse])
  · have hliteral : ∀ v : Value, front ts = v.mark → Ahead t behind p.rest := by
      intro v hfront
      rw [operand_literal hfront] at hp
      obtain rfl := Except.ok.inj hp
      exact hts.tail_of_not ht (by rw [hfront]; cases v <;> rintro ⟨⟩)
    cases hfront : front ts with
    | number x => exact hliteral (.number x) hfront
    | text s => exact hliteral (.text s) hfront
    | boolean b => exact hliteral (.boolean b) hfront
    | openParen =>
      rw [operand_group hfront] at hp
      exact (hgroup.bind fun u ↦ leaves_closed g ht [.after u] u) _ p hp hts.tail
    | identifier name =>
      have htail := hts.tail_of_not ht (by rw [hfront]; rintro ⟨⟩)
      by_cases hparen : front ts.tail = .openParen
      · rw [operand_call hfront hparen] at hp
        have hlength := ((List.tail_suffix ts.tail).trans (List.tail_suffix ts)).length_le
        exact ((leaves_arguments hgoes hadvances hgroup ts.length).bind fun as ↦
          leaves_closed g ht (as.map .after) _) _ p hp ⟨hlength, htail.tail⟩
      · rw [operand_named hfront hparen] at hp
        obtain rfl := Except.ok.inj hp
        exact htail
    | operator | closeParen | comma | endOfInput =>
      rw [operand_refuse (by rw [hfront]; rfl)] at hp
      exact absurd hp (by simp [refuse])

theorem leaves_sum {group : Reader Tree} (hadvances : group.Advances)
    (hgroup : group.Leaves (Reached t behind) (Ahead t behind)) :
    (g.sum group).Leaves (Reached t behind) (Ahead t behind) :=
  leaves_row .sum (leaves_row .product (leaves_operand g ht hrefused hgoes hadvances hgroup))

theorem leaves_comparison {group : Reader Tree} (hadvances : group.Advances)
    (hgroup : group.Leaves (Reached t behind) (Ahead t behind)) :
    (g.comparison group).Leaves (Reached t behind) (Ahead t behind) := by
  have hsum := leaves_sum g ht hrefused hgoes hadvances hgroup
  exact hsum.bind (leaves_rowFrom .comparison hsum 1)

theorem leaves_termOver {negated group : Reader Tree}
    (hnegated : negated.Leaves (Reached t behind) (Ahead t behind)) (hadvances : group.Advances)
    (hgroup : group.Leaves (Reached t behind) (Ahead t behind)) :
    (g.termOver negated group).Leaves (Reached t behind) (Ahead t behind) := by
  intro ts p hp hts
  unfold termOver at hp
  by_cases hnot : (front ts).isKeyword "not" = true
  · rw [if_pos hnot] at hp
    have hfront := TokenKind.eq_of_isKeyword hnot
    rcases hts with rfl | hts
    · rw [hfront] at hrefused
      exact absurd hrefused (by simp [TokenKind.beginsOperand])
    · exact (hnegated.bind fun u ↦ leaves_pure _) _ p hp hts.tail
  · rw [if_neg hnot] at hp
    exact leaves_comparison g ht hrefused hgoes hadvances hgroup ts p hp hts

theorem leaves_term (depth : Nat) : (g.term depth).Leaves (Reached t behind) (Ahead t behind) := by
  induction depth with
  | zero =>
    exact leaves_termOver g ht hrefused hgoes (leaves_tooDeep g) g.advances_tooDeep
      (leaves_tooDeep g)
  | succ depth ih =>
    exact leaves_termOver g ht hrefused hgoes ih (advances_expressionOver (g.advances_term depth))
      (leaves_row .disjunction (leaves_row .conjunction ih))

/-- **A value cannot be read where none can begin.** If there is a token that asks for a value and
no value behind it, what is read ends in front of that token. -/
theorem leaves_expression (depth : Nat) :
    (g.expression depth).Leaves (Reached t behind) (Ahead t behind) := by
  cases depth with
  | zero => exact leaves_tooDeep g
  | succ depth =>
    have hterm := leaves_term g ht hrefused hgoes depth
    exact leaves_row .disjunction (leaves_row .conjunction hterm)

end BeforeValue

end Grammar

end Unreached

/-! ## Evaluating -/

section Evaluating

variable {tokens tokens' before behind behind' : List Token} {bindings : Table Value}
  {functions : Table Callable} {options : Options} {v : Value}

/-- **What stands where a value is missing does not count.** An evaluation that succeeds ignores it,
and comes to the same whatever is there. -/
theorem evaluateTokens_unreached
    (hresult : (evaluateTokens tokens bindings functions options).result = .ok v)
    (hbefore : beforeEnd tokens = before ++ behind)
    (hbefore' : beforeEnd tokens' = before ++ behind')
    (hvalue : BeforeValue (Gives.lastKind none before))
    (hrefused : (front behind).beginsOperand = false)
    (hgoes : ¬endsArguments (front behind)) :
    let report := evaluateTokens tokens' bindings functions options
    report.result = .ok v ∧
      report.calls = (evaluateTokens tokens bindings functions options).calls := by
  obtain ⟨p, hp, hrest⟩ :=
    (agrees_evaluateTokens tokens bindings functions options).unread_of_ok v hresult
  obtain ⟨hexpression, hstrict⟩ := Tree.read_eq_ok_iff.mp hp
  obtain ⟨vs, hvs⟩ := Tree.suffix_of_read hp
  rcases List.eq_nil_or_concat before with rfl | ⟨us, t, hconcat⟩
  · -- a comma in front of everything would still be ahead behind everything
    have hahead : Ahead ⟨.comma, 0⟩ behind p.rest :=
      Grammar.leaves_expression _ .comma hrefused hgoes _ _ p hexpression (.inl hbefore)
    have hle : p.rest <:+ behind := ⟨vs, hvs.trans hbefore⟩
    have hlength := (hahead.trans hle).length_le
    exact absurd hlength (by simp)
  · rw [List.concat_eq_append] at hconcat
    subst hconcat
    rw [Gives.lastKind_concat] at hvalue
    rw [List.append_assoc, List.singleton_append] at hbefore hbefore'
    have hahead : Ahead t behind p.rest :=
      Grammar.leaves_expression _ hvalue hrefused hgoes _ _ p hexpression
        (.inr (hbefore ▸ List.suffix_append us _))
    obtain ⟨ws, hws⟩ := hahead
    have hlenient : options.strict = false := by
      refine Bool.eq_false_iff.mpr fun hs ↦ ?_
      rw [hstrict hs] at hws
      exact absurd hws (by simp)
    have hus : us = vs ++ ws := by
      rw [hbefore, ← hws, ← List.append_assoc] at hvs
      exact (List.append_cancel_right hvs).symm
    rw [hus, List.append_assoc] at hbefore hbefore'
    have hfront : front (ws ++ t :: behind') = front (ws ++ t :: behind) := by cases ws <;> rfl
    obtain ⟨hresult', hcalls, -⟩ := evaluateTokens_replaced hlenient hresult
      (hrest.trans hws.symm) hbefore hbefore' (.inl hfront)
    exact ⟨hresult', hcalls⟩

end Evaluating

/-- The tokens of a text come to the same when what is between a minus and a number is left out. -/
theorem evaluateTokens_respaced {front between back : String} {before after : List Token}
    {x : Float} {v : Value} {bindings : Table Value} {functions : Table Callable}
    {options : Options} (htokens : tokenize (front ++ "-" ++ between ++ back)
      = before ++ ⟨.operator (.arithmetic .subtract), front.utf8ByteSize⟩ ::
        ⟨.number x, front.utf8ByteSize + 1 + between.utf8ByteSize⟩ :: after)
    (hresult : (evaluateTokens (tokenize (front ++ "-" ++ between ++ back)) bindings functions
      options).result = .ok v) :
    let report := evaluateTokens (tokenize (front ++ "-" ++ back)) bindings functions options
    report.result = .ok v ∧ report.calls
      = (evaluateTokens (tokenize (front ++ "-" ++ between ++ back)) bindings functions
        options).calls := by
  rcases tokenize_respaced htokens with hmoved | ⟨hvalue, hfused⟩
  · have hne : tokenize (front ++ "-" ++ between ++ back) ≠ [] := by simp [htokens]
    have hrun := evaluateTokens_moved (leftOut front.utf8ByteSize between.utf8ByteSize) hne bindings
      functions options
    rw [← hmoved] at hrun
    have hvalue : (evaluateTokens (tokenize (front ++ "-" ++ back)) bindings functions
        options).result = (evaluateTokens (tokenize (front ++ "-" ++ between ++ back)) bindings
          functions options).result.mapError _ := congrArg Run.result hrun
    rw [hresult] at hvalue
    exact ⟨hvalue, congrArg Run.calls hrun⟩
  · have hendless := endless_of_tokenize htokens
    rw [htokens] at hresult ⊢
    rw [hfused]
    exact evaluateTokens_unreached hresult (hendless.beforeEnd_append_list _)
      (hendless.beforeEnd_append_list _) hvalue rfl
      (by simp [beforeEnd_cons, Reader.front, endsArguments])

/-- **No blank behind a minus makes a difference.** Where an evaluation succeeds, what stands
between a minus and a number can be left out of the text: the value is the same and so are the
calls. Blanks stand there, or characters that belong to no token. -/
theorem evaluate_minus {e : Engine} {given : Table Value} {front between back : String}
    {before after : List Token} {x : Float} {v : Value}
    (htokens : tokenize (front ++ "-" ++ between ++ back)
      = before ++ ⟨.operator (.arithmetic .subtract), front.utf8ByteSize⟩ ::
        ⟨.number x, front.utf8ByteSize + 1 + between.utf8ByteSize⟩ :: after)
    (hresult : (e.evaluate (front ++ "-" ++ between ++ back) given).result = .ok v) :
    let answer := e.evaluate (front ++ "-" ++ back) given
    answer.result = .ok v ∧
      answer.calls = (e.evaluate (front ++ "-" ++ between ++ back) given).calls := by
  intro answer
  have hsource : front ++ "-" ++ between ++ back ≠ "" := by simp
  have hsource' : front ++ "-" ++ back ≠ "" := by simp
  have hold := e.reports_evaluate hsource given
  have hnew := e.reports_evaluate hsource' given
  obtain ⟨hvalue, hcalls⟩ :=
    evaluateTokens_respaced htokens (hold.result_eq_ok_iff.mp hresult)
  exact ⟨hnew.result_eq_ok_iff.mpr hvalue, hnew.calls.trans (hcalls.trans hold.calls.symm)⟩

/-- The minus of `true, - 5` is ignored, and so is the number that it becomes the sign of. -/
theorem evaluate_minus_ignored :
    tokenize "true, - 5" = [⟨.boolean true, 0⟩, ⟨.comma, 4⟩,
        ⟨.operator (.arithmetic .subtract), 6⟩, ⟨.number (Number.ofLiteral "5"), 8⟩,
        ⟨.endOfInput, 9⟩] ∧
      (Engine.empty.evaluate "true, - 5" ∅).result = .ok (.boolean true) ∧
      (Engine.empty.evaluate "true, -5" ∅).result = .ok (.boolean true) := by
  have htokens : tokenize ("true, " ++ "-" ++ " " ++ "5")
      = [⟨.boolean true, 0⟩, ⟨.comma, 4⟩] ++ ⟨.operator (.arithmetic .subtract), 6⟩ ::
        ⟨.number (Number.ofLiteral "5"), 6 + 1 + 1⟩ :: [⟨.endOfInput, 9⟩] := by rfl
  have hresult : (Engine.empty.evaluate ("true, " ++ "-" ++ " " ++ "5") ∅).result
      = .ok (.boolean true) := by rfl
  exact ⟨htokens, hresult, (evaluate_minus htokens hresult).1⟩

end Formula
