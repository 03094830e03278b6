import Formula.Proofs.EndMarker
import Formula.Proofs.Lookahead

/-!
# Leftovers

A lenient evaluation that is complete before the tokens end ignores the rest of them. It has looked
at the first token of the rest, to see that nothing goes on there, and at no other one. So it comes
to the same whatever stands behind that token, and also if an end stands in the place of it
(`evaluateTokens_leftovers`).

What makes this more than a matter of the outermost level is that brackets may be missing. Then the
groups, the arguments and the rows that are open all stop at the same token, each for a reason of
its own, and each of them has to stop at an end as well.
-/

namespace Formula

open Formula.Tree Reader Grammar

/-- Two readings of the same tree are evaluated alike. -/
theorem Report.Agrees.of_value_eq {ρ : Scope} {p q : Part Tree} {report report' : Report}
    (h : report.Agrees ρ (.ok p)) (h' : report'.Agrees ρ (.ok q)) (hvalue : q.value = p.value)
    {v : Value} (hresult : report.result = .ok v) :
    report'.result = .ok v ∧ report'.calls = report.calls ∧ report'.unread = q.rest := by
  have hrun : report'.run = report.run := by
    rw [h.run, h'.run, outcomeRun, outcomeRun, hvalue]
  have hresult' : report'.result = .ok v := (congrArg Run.result hrun).trans hresult
  obtain ⟨q', hq', hunread⟩ := h'.unread_of_ok v hresult'
  obtain rfl := Except.ok.inj hq'
  exact ⟨hresult', congrArg Run.calls hrun, hunread⟩

section Replaced

variable {tokens tokens' : List Token} {bindings : Table Value} {functions : Table Callable}
  {options : Options} {v : Value}

/-- Leftovers are replaced, as long as the token in front stays or becomes an end. -/
theorem evaluateTokens_replaced {us later later' : List Token} (hlenient : options.strict = false)
    (hresult : (evaluateTokens tokens bindings functions options).result = .ok v)
    (hunread : (evaluateTokens tokens bindings functions options).unread = later)
    (hbefore : beforeEnd tokens = us ++ later) (hbefore' : beforeEnd tokens' = us ++ later')
    (hfront : front later' = front later ∨ front later' = .endOfInput) :
    let report := evaluateTokens tokens' bindings functions options
    report.result = .ok v ∧
      report.calls = (evaluateTokens tokens bindings functions options).calls ∧
      report.unread = later' := by
  have hagrees := agrees_evaluateTokens tokens bindings functions options
  have hagrees' := agrees_evaluateTokens tokens' bindings functions options
  obtain ⟨p, hp, hrest⟩ := hagrees.unread_of_ok v hresult
  rw [hlenient, Tree.read_lenient, hbefore] at hp
  let g : Grammar := ⟨false, options.maxDepth, endOffset tokens⟩
  let g' : Grammar := ⟨false, options.maxDepth, endOffset tokens'⟩
  have hstrict : g'.strict = g.strict := rfl
  obtain ⟨q, hq, hvalue, hforks⟩ := tracks_expression (lookahead_replaced hstrict hfront)
    options.maxDepth _ _ p (forks_append us ⟨rfl, rfl⟩) hp
    (Nat.le_of_eq (by rw [← hrest, hunread]))
  rw [hlenient, Tree.read_lenient, hbefore, hp] at hagrees
  rw [hlenient, Tree.read_lenient, hbefore', hq] at hagrees'
  obtain ⟨hresult', hcalls, hunread'⟩ := hagrees.of_value_eq hagrees' hvalue hresult
  refine ⟨hresult', hcalls, ?_⟩
  -- the readings fork where the first one stopped, and not before
  obtain ⟨us', _, _, hp', hq', rfl, rfl⟩ := hforks.exists_append
  rw [← hrest, hunread, List.self_eq_append_left] at hp'
  rw [hunread', hq', hp', List.nil_append]

end Replaced

/-! ## Beginnings of lists -/

theorem take_beforeEnd {tokens : List Token} {n : Nat} (hn : n ≤ (beforeEnd tokens).length) :
    (beforeEnd tokens).take n = tokens.take n := by
  have hprefix : beforeEnd tokens <+: tokens := List.takeWhile_prefix _
  obtain ⟨later, hlater⟩ := hprefix
  calc (beforeEnd tokens).take n = (beforeEnd tokens ++ later).take n :=
        (List.take_append_of_le_length hn).symm
    _ = tokens.take n := by rw [hlater]

theorem endless_take {tokens : List Token} {n : Nat} (hn : n ≤ (beforeEnd tokens).length) :
    Endless (tokens.take n) := by
  rw [← take_beforeEnd hn]
  exact fun t ht ↦ endless_beforeEnd tokens t (List.mem_of_mem_take ht)

/-- A list that begins like another one, and as far as to a token in front of the end. -/
theorem beforeEnd_of_take_eq {tokens tokens' : List Token} {c : Nat}
    (hc : c < (beforeEnd tokens).length) (h : tokens'.take (c + 1) = tokens.take (c + 1)) :
    ∃ later, beforeEnd tokens' = (beforeEnd tokens).take c ++ (beforeEnd tokens)[c] :: later := by
  refine ⟨beforeEnd (tokens'.drop (c + 1)), ?_⟩
  calc beforeEnd tokens' = beforeEnd (tokens'.take (c + 1) ++ tokens'.drop (c + 1)) := by
        rw [List.take_append_drop]
    _ = tokens.take (c + 1) ++ beforeEnd (tokens'.drop (c + 1)) := by
        rw [h, (endless_take hc).beforeEnd_append_list]
    _ = (beforeEnd tokens).take c ++ (beforeEnd tokens)[c] :: beforeEnd (tokens'.drop (c + 1)) := by
        rw [← take_beforeEnd hc, List.take_succ_eq_append_getElem hc, List.append_assoc,
          List.singleton_append]

/-- **What is ignored could be anything.** A lenient evaluation that is complete in front of the
token at index `c` is the same for all tokens that begin with the same `c + 1` tokens, and, but for
the notice, for the first `c` of them with an end behind them. -/
theorem evaluateTokens_leftovers {tokens : List Token} {bindings : Table Value}
    {functions : Table Callable} {options : Options} {v : Value} {c : Nat}
    (hlenient : options.strict = false)
    (hresult : (evaluateTokens tokens bindings functions options).result = .ok v)
    (hunread : (evaluateTokens tokens bindings functions options).unread
      = (beforeEnd tokens).drop c)
    (hc : c < (beforeEnd tokens).length) :
    (∀ tokens' : List Token, tokens'.take (c + 1) = tokens.take (c + 1) →
      let report := evaluateTokens tokens' bindings functions options
      report.result = .ok v ∧
        report.calls = (evaluateTokens tokens bindings functions options).calls ∧
        report.ignored? = tokens[c]?) ∧
    ∀ later : List Token, front later = .endOfInput →
      let report := evaluateTokens (tokens.take c ++ later) bindings functions options
      report.result = .ok v ∧
        report.calls = (evaluateTokens tokens bindings functions options).calls ∧
        report.ignored? = none := by
  have hsplit : beforeEnd tokens = (beforeEnd tokens).take c ++ (beforeEnd tokens).drop c :=
    (List.take_append_drop c _).symm
  refine ⟨fun tokens' htokens' ↦ ?_, fun later hlater ↦ ?_⟩
  · obtain ⟨later, hbefore⟩ := beforeEnd_of_take_eq hc htokens'
    have hfront : front ((beforeEnd tokens)[c] :: later) = front ((beforeEnd tokens).drop c) := by
      rw [List.drop_eq_getElem_cons hc]
      rfl
    obtain ⟨hresult', hcalls, hunread'⟩ := evaluateTokens_replaced hlenient hresult hunread hsplit
      hbefore (.inl hfront)
    have hprefix : beforeEnd tokens <+: tokens := List.takeWhile_prefix _
    refine ⟨hresult', hcalls, ?_⟩
    rw [Report.ignored?_of_ok hresult', hunread', List.prefix_iff_getElem?.mp hprefix c hc]
    rfl
  · have hbefore : beforeEnd (tokens.take c ++ later) = (beforeEnd tokens).take c ++ [] := by
      rw [(endless_take (Nat.le_of_lt hc)).beforeEnd_append_front hlater,
        take_beforeEnd (Nat.le_of_lt hc), List.append_nil]
    obtain ⟨hresult', hcalls, hunread'⟩ := evaluateTokens_replaced hlenient hresult hunread hsplit
      hbefore (.inr rfl)
    refine ⟨hresult', hcalls, ?_⟩
    rw [Report.ignored?_of_ok hresult', hunread']
    rfl

/-- In `not (true, true` the bracket is missing in front of the comma, and the comma is where the
group and the negation stop. -/
theorem evaluateTokens_leftovers_comma :
    let tokens : List Token := [⟨.identifier "not", 0⟩, ⟨.openParen, 4⟩, ⟨.boolean true, 5⟩,
      ⟨.comma, 9⟩, ⟨.boolean true, 11⟩]
    let tokens' : List Token := [⟨.identifier "not", 0⟩, ⟨.openParen, 4⟩, ⟨.boolean true, 5⟩,
      ⟨.comma, 9⟩, ⟨.closeParen, 10⟩, ⟨.endOfInput, 11⟩]
    let report := evaluateTokens tokens ∅ ∅ {}
    let report' := evaluateTokens tokens' ∅ ∅ {}
    let whole := evaluateTokens (tokens.take 3 ++ []) ∅ ∅ {}
    report.result = .ok (.boolean false) ∧ report.unread = (beforeEnd tokens).drop 3 ∧
      report'.result = .ok (.boolean false) ∧ report'.ignored? = some ⟨.comma, 9⟩ ∧
      whole.result = .ok (.boolean false) ∧ whole.ignored? = none := by
  intro tokens tokens' report report' whole
  have hresult : report.result = .ok (.boolean false) := rfl
  have hunread : report.unread = (beforeEnd tokens).drop 3 := rfl
  have hlenient : ({} : Options).strict = false := rfl
  obtain ⟨hany, hend⟩ := evaluateTokens_leftovers hlenient hresult hunread (by decide)
  obtain ⟨hresult', -, hignored'⟩ := hany tokens' rfl
  obtain ⟨hwhole, -, hnone⟩ := hend [] rfl
  exact ⟨hresult, hunread, hresult', hignored', hwhole, hnone⟩

end Formula
