import Formula.Proofs.Leftovers

/-!
# Parentheses

Parentheses around a whole formula change nothing but how deep it nests. Where a bracket is missing
in it, one of those that are put behind it closes the wrong group: the one that was open inside.
The groups around it are then closed by what is left, and the outermost ones by nothing at all,
which only a lenient evaluation lets pass; but then a missing bracket inside is let pass too, and
strict evaluation has none. So what has to be followed is not which bracket closes which group but
only that nothing except brackets is ever left (`Closers`).

The same holds of a formula that is strictly correct and loses some of the brackets at its end, or
gets one too many with anything behind it, if it is then evaluated leniently
(`evaluateTokens_parentheses`).
-/

namespace Formula

open Formula.Tree Reader

namespace Grammar

variable {g : Grammar} {d n : Nat} {ts : List Token} {p : Part Tree}

/-! ## Groups around an expression -/

/-- A row ends where nothing more can come. -/
theorem row_of_ends {l : Level} {operand : Reader Tree} (h : operand ts = .ok p)
    (hends : endsArguments (front p.rest)) : row l operand ts = .ok p := by
  rw [row, bind_apply, h, andThen_ok, rowFrom_end (atLevel?_of_endsArguments hends)]
  rfl

/-- An operand is an expression if nothing more can come. -/
theorem expression_of_operand (hfront : front ts = .openParen)
    (h : g.operand (g.expression d) ts = .ok p) (hends : endsArguments (front p.rest)) :
    g.expression (d + 1) ts = .ok p := by
  have hsum : g.sum (g.expression d) ts = .ok p := row_of_ends (row_of_ends h hends) hends
  have hcomparison : g.comparison (g.expression d) ts = .ok p := by
    rw [comparison, bind_apply, hsum, andThen_ok, rowFrom_end (atLevel?_of_endsArguments hends)]
    rfl
  have hterm : g.term d ts = .ok p := by
    rw [g.term_eq, termOver, hfront]
    exact hcomparison
  exact row_of_ends (row_of_ends hterm hends) hends

/-- Closing brackets close a group, unless there is none where one is insisted on. -/
theorem closing_closers (h : Closers ts) (hne : g.strict → ts ≠ []) :
    ∃ q, g.closing ts = .ok q ∧ Closers q.rest ∧ (g.strict → q.rest.length + 1 = ts.length) := by
  cases ts with
  | nil =>
    have hlenient : g.strict = false := by
      cases hg : g.strict with
      | false => rfl
      | true => exact absurd rfl (hne hg)
    exact ⟨_, closing_of_ne (by simp [front]) hlenient, h, fun hg ↦ absurd hg (by simp [hlenient])⟩
  | cons t ts =>
    have hfront : front (t :: ts) = .closeParen := h t List.mem_cons_self
    exact ⟨_, closing_of_closeParen hfront, h.tail, fun _ ↦ rfl⟩

/-- **A group around an expression is the expression**, one level deeper. -/
theorem expression_group {o : Token} (ho : o.kind = .openParen)
    (hp : g.expression d ts = .ok p) (hclosers : Closers p.rest) (hne : g.strict → p.rest ≠ []) :
    ∃ q, g.expression (d + 1) (o :: ts) = .ok q ∧ q.value = p.value ∧ Closers q.rest ∧
      (g.strict → q.rest.length + 1 = p.rest.length) := by
  obtain ⟨r, hr, hrest, hlength⟩ := closing_closers hclosers hne
  have hfront : front (o :: ts) = .openParen := ho
  have hoperand : g.operand (g.expression d) (o :: ts)
      = .ok ⟨p.value, r.rest, p.missing + r.missing⟩ := by
    rw [operand_group hfront, List.tail_cons, bind_apply, hp, andThen_ok, bind_apply,
      within_of_ok _ hr, andThen_ok]
    rfl
  exact ⟨_, expression_of_operand hfront hoperand hrest.endsArguments, rfl, hrest, hlength⟩

/-- Groups around an expression, as many as there are brackets for. -/
theorem expression_groups {openers : List Token} (hp : g.expression d ts = .ok p)
    (hclosers : Closers p.rest) (hcount : g.strict → p.rest.length = n)
    (hopeners : ∀ t ∈ openers, t.kind = .openParen) (hle : openers.length ≤ n) :
    ∃ q, g.expression (d + openers.length) (openers ++ ts) = .ok q ∧ q.value = p.value ∧
      Closers q.rest ∧ (g.strict → q.rest.length + openers.length = n) := by
  induction openers with
  | nil => exact ⟨p, hp, rfl, hclosers, hcount⟩
  | cons o openers ih =>
    obtain ⟨ho, hopeners⟩ := List.forall_mem_cons.mp hopeners
    rw [List.length_cons] at hle
    obtain ⟨q, hq, hvalue, hclosers', hcount'⟩ := ih hopeners (by omega)
    have hne : g.strict → q.rest ≠ [] := by
      intro hstrict hnil
      have hlength := hcount' hstrict
      rw [hnil, List.length_nil] at hlength
      omega
    obtain ⟨r, hr, hvalue', hclosers'', hlength⟩ := expression_group ho hq hclosers' hne
    refine ⟨r, hr, hvalue'.trans hvalue, hclosers'', fun hstrict ↦ ?_⟩
    have hlength' := hlength hstrict
    have hcount'' := hcount' hstrict
    rw [List.length_cons]
    omega

/-! ## Brackets behind an expression -/

/-- Closing brackets behind an expression are closing brackets still, and strictly they are all of
them. -/
theorem expression_append_closers {g' : Grammar} (hstrict : g'.strict = g.strict)
    {closers : List Token} (hclosers : Closers closers) (hp : g.expression d ts = .ok p)
    (hrest : p.rest = []) :
    ∃ q, g'.expression d (ts ++ closers) = .ok q ∧ q.value = p.value ∧ Closers q.rest ∧
      (g'.strict → q.rest = closers) := by
  have hlook : Lookahead g g' 0
      (Forks fun ts ts' ↦ ts = [] ∧ Closers ts' ∧ (g'.strict → ts' = closers)) := by
    refine lookahead_appended (fun h ↦ hstrict ▸ h) (fun later h ↦ h.1.endsArguments) ?_
    intro hlenient later h
    have hlenient' : ¬g'.strict := by simp [hstrict, hlenient]
    obtain ⟨q, hq, hrest, -⟩ := closing_closers h.1 fun h ↦ absurd h hlenient'
    exact ⟨q, hq, hrest, fun h ↦ absurd h hlenient'⟩
  have hforks := forks_append (P := fun ts ts' ↦ ts = [] ∧ Closers ts' ∧
    (g'.strict → ts' = closers)) ts ⟨rfl, hclosers, fun _ ↦ rfl⟩
  rw [List.append_nil] at hforks
  obtain ⟨q, hq, hvalue, hforks'⟩ := tracks_expression hlook d _ _ p hforks hp (Nat.zero_le _)
  rw [hrest] at hforks'
  cases hforks' with
  | fork h => exact ⟨q, hq, hvalue, h.2⟩

/-- What was read strictly does not go on behind a closing bracket. -/
theorem expression_append_closeParen {g' : Grammar} (hstrict : g.strict) {later : List Token}
    (hlater : front later = .closeParen) (hp : g.expression d ts = .ok p) :
    ∃ q, g'.expression d (ts ++ later) = .ok q ∧ q.value = p.value := by
  have hlook : Lookahead g g' 0 (Forks fun ts ts' ↦ ts = [] ∧ ts' = later) := by
    refine lookahead_appended (fun _ ↦ hstrict) (fun later' h ↦ ?_) fun hlenient ↦ ?_
    · rw [h, hlater]
      rfl
    · exact absurd hstrict (by simp [hlenient])
  have hforks := forks_append (P := fun ts ts' ↦ ts = [] ∧ ts' = later) ts ⟨rfl, rfl⟩
  rw [List.append_nil] at hforks
  obtain ⟨q, hq, hvalue, -⟩ := tracks_expression hlook d _ _ p hforks hp (Nat.zero_le _)
  exact ⟨q, hq, hvalue⟩

/-- Leniently, closing brackets at the end need not be there. -/
theorem expression_without_closers {g' : Grammar} (hlenient : g'.strict = false)
    {closers : List Token} (hclosers : Closers closers)
    (hp : g.expression d (ts ++ closers) = .ok p) :
    ∃ q, g'.expression d ts = .ok q ∧ q.value = p.value := by
  have hforks := forks_append (P := fun ts ts' ↦ Closers ts ∧ ts' = []) ts ⟨hclosers, rfl⟩
  rw [List.append_nil] at hforks
  obtain ⟨q, hq, hvalue, -⟩ := tracks_expression (lookahead_shortened hlenient) d _ _ p hforks hp
    (Nat.zero_le _)
  exact ⟨q, hq, hvalue⟩

end Grammar

/-! ## Whole lists of tokens -/

namespace Tree

variable {tokens ending ending' : List Token} {maxDepth : Nat} {p : Part Tree}

/-- In parentheses, the tree that is read is the same. -/
theorem read_parenthesized {strict : Bool} {openers closers : List Token}
    (hendless : Endless tokens) (hending : front ending = .endOfInput)
    (hending' : front ending' = .endOfInput) (hlength : openers.length = closers.length)
    (hopeners : ∀ t ∈ openers, t.kind = .openParen) (hclosers : Grammar.Closers closers)
    (h : Tree.read (tokens ++ ending) strict maxDepth = .ok p) (hrest : p.rest = []) :
    ∃ q, Tree.read (openers ++ tokens ++ closers ++ ending') strict (maxDepth + openers.length)
      = .ok q ∧ q.value = p.value := by
  let g : Grammar := ⟨strict, maxDepth, endOffset (tokens ++ ending)⟩
  let g' : Grammar := ⟨strict, maxDepth + openers.length,
    endOffset (openers ++ tokens ++ closers ++ ending')⟩
  have hbefore : beforeEnd (openers ++ tokens ++ closers ++ ending')
      = openers ++ (tokens ++ closers) := by
    have hopeners' : Endless openers := fun t ht ↦ by simp [hopeners t ht]
    have hclosers' : Endless closers := fun t ht ↦ by simp [hclosers t ht]
    rw [((hopeners'.append hendless).append hclosers').beforeEnd_append_front hending',
      List.append_assoc]
  obtain ⟨hp, -⟩ := read_eq_ok_iff.mp h
  rw [hendless.beforeEnd_append_front hending] at hp
  have hstrict : g'.strict = g.strict := rfl
  obtain ⟨q, hq, hvalue, hleft, hall⟩ :=
    Grammar.expression_append_closers hstrict hclosers hp hrest
  obtain ⟨r, hr, hvalue', -, hcount⟩ := Grammar.expression_groups hq hleft
    (fun h ↦ congrArg List.length (hall h)) hopeners (Nat.le_of_eq hlength)
  refine ⟨r, read_eq_ok_iff.mpr ⟨by rw [hbefore]; exact hr, fun h ↦ ?_⟩, hvalue'.trans hvalue⟩
  -- strictly, every bracket has closed its own group
  have hlength' := hcount h
  exact List.eq_nil_of_length_eq_zero (by omega)

/-- What was read strictly is read leniently without the brackets at its end. -/
theorem read_shortened {shorter closers : List Token} (hendless : Endless (shorter ++ closers))
    (hending : front ending = .endOfInput) (hending' : front ending' = .endOfInput)
    (hclosers : Grammar.Closers closers)
    (h : Tree.read (shorter ++ closers ++ ending) true maxDepth = .ok p) :
    ∃ q, Tree.read (shorter ++ ending') false maxDepth = .ok q ∧ q.value = p.value := by
  let g' : Grammar := ⟨false, maxDepth, endOffset (shorter ++ ending')⟩
  have hshorter : Endless shorter := fun t ht ↦ hendless t (List.mem_append_left _ ht)
  obtain ⟨hp, -⟩ := read_eq_ok_iff.mp h
  rw [hendless.beforeEnd_append_front hending] at hp
  have hlenient : g'.strict = false := rfl
  obtain ⟨q, hq, hvalue⟩ := Grammar.expression_without_closers hlenient hclosers hp
  rw [read_lenient, hshorter.beforeEnd_append_front hending']
  exact ⟨q, hq, hvalue⟩

/-- What was read strictly is read leniently in front of a closing bracket. -/
theorem read_continued {closer : Token} {later : List Token} (hendless : Endless tokens)
    (hending : front ending = .endOfInput) (hcloser : closer.kind = .closeParen)
    (h : Tree.read (tokens ++ ending) true maxDepth = .ok p) :
    ∃ q, Tree.read (tokens ++ closer :: later) false maxDepth = .ok q ∧ q.value = p.value := by
  obtain ⟨hp, -⟩ := read_eq_ok_iff.mp h
  rw [hendless.beforeEnd_append_front hending] at hp
  have hfront : front (closer :: beforeEnd later) = .closeParen := hcloser
  rw [read_lenient, hendless.beforeEnd_append_list, beforeEnd_cons later (by simp [hcloser])]
  exact Grammar.expression_append_closeParen (by rfl) hfront hp

end Tree

section Whole

variable {tokens tokens' : List Token} {bindings : Table Value} {functions : Table Callable}
  {options options' : Options} {v : Value}

/-- An evaluation that ignores nothing has read an expression and nothing is left. -/
theorem exists_read_of_ignored?
    (hresult : (evaluateTokens tokens bindings functions options).result = .ok v)
    (hignored : (evaluateTokens tokens bindings functions options).ignored? = none) :
    ∃ p, Tree.read tokens options.strict options.maxDepth = .ok p ∧ p.rest = [] := by
  obtain ⟨p, hp, hunread⟩ :=
    (agrees_evaluateTokens tokens bindings functions options).unread_of_ok v hresult
  rw [Report.ignored?_of_ok hresult, List.head?_eq_none_iff] at hignored
  exact ⟨p, hp, hunread ▸ hignored⟩

/-- Evaluations under which the same tree is read are the same. -/
theorem evaluateTokens_of_value_eq {p q : Part Tree}
    (hshort : options'.shortCircuit = options.shortCircuit)
    (hresult : (evaluateTokens tokens bindings functions options).result = .ok v)
    (hp : Tree.read tokens options.strict options.maxDepth = .ok p)
    (hq : Tree.read tokens' options'.strict options'.maxDepth = .ok q)
    (hvalue : q.value = p.value) :
    let report := evaluateTokens tokens' bindings functions options'
    report.result = .ok v ∧
      report.calls = (evaluateTokens tokens bindings functions options).calls := by
  have hagrees := agrees_evaluateTokens tokens bindings functions options
  have hagrees' := agrees_evaluateTokens tokens' bindings functions options'
  rw [hp] at hagrees
  rw [hq, hshort] at hagrees'
  obtain ⟨hresult', hcalls, -⟩ := hagrees.of_value_eq hagrees' hvalue hresult
  exact ⟨hresult', hcalls⟩

end Whole

/-- **Parentheses do nothing but nest, and leniently their number does not matter.** As many pairs
of them as one likes can be put around a formula of which nothing is ignored, if that many more
levels may be opened. Of a formula that is accepted strictly, closing brackets at the end can be
missing, and there can be one too many with anything behind it. -/
theorem evaluateTokens_parentheses {tokens ending : List Token} {bindings : Table Value}
    {functions : Table Callable} {options : Options} {v : Value} (hendless : Endless tokens)
    (hending : front ending = .endOfInput)
    (hresult : (evaluateTokens (tokens ++ ending) bindings functions options).result = .ok v)
    (hignored : (evaluateTokens (tokens ++ ending) bindings functions options).ignored? = none) :
    (∀ openers closers ending' : List Token, openers.length = closers.length →
      (∀ t ∈ openers, t.kind = .openParen) → (∀ t ∈ closers, t.kind = .closeParen) →
      front ending' = .endOfInput →
      let report := evaluateTokens (openers ++ tokens ++ closers ++ ending') bindings functions
        { options with maxDepth := options.maxDepth + openers.length }
      report.result = .ok v ∧
        report.calls = (evaluateTokens (tokens ++ ending) bindings functions options).calls) ∧
    ((∃ w, (evaluateTokens (tokens ++ ending) bindings functions
      { options with strict := true }).result = .ok w) →
      (∀ shorter closers ending' : List Token, tokens = shorter ++ closers →
        (∀ t ∈ closers, t.kind = .closeParen) → front ending' = .endOfInput →
        let report := evaluateTokens (shorter ++ ending') bindings functions
          { options with strict := false }
        report.result = .ok v ∧
          report.calls = (evaluateTokens (tokens ++ ending) bindings functions options).calls) ∧
      ∀ (closer : Token) (later : List Token), closer.kind = .closeParen →
        let report := evaluateTokens (tokens ++ closer :: later) bindings functions
          { options with strict := false }
        report.result = .ok v ∧
          report.calls
            = (evaluateTokens (tokens ++ ending) bindings functions options).calls) := by
  obtain ⟨p, hread, hrest⟩ := exists_read_of_ignored? hresult hignored
  refine ⟨fun openers closers ending' hlength hopeners hclosers hending' ↦ ?_, fun ⟨w, hw⟩ ↦ ?_⟩
  · obtain ⟨q, hq, hvalue⟩ := Tree.read_parenthesized hendless hending hending' hlength hopeners
      hclosers hread hrest
    exact evaluateTokens_of_value_eq (by rfl) hresult hread hq hvalue
  · obtain ⟨p', hstrict, -⟩ := (agrees_evaluateTokens (tokens ++ ending) bindings functions
      { options with strict := true }).unread_of_ok w hw
    -- what is read strictly is read in any case
    have hsame : p' = p := by
      have hreading := strictReading_read (tokens ++ ending) options.maxDepth
      cases hoptions : options.strict with
      | true =>
        rw [hoptions] at hread
        exact Except.ok.inj (hstrict.symm.trans hread)
      | false =>
        rw [hoptions] at hread
        rw [hstrict, hread] at hreading
        cases hreading with
        | complete => rfl
    subst hsame
    refine ⟨fun shorter closers ending' htokens hclosers hending' ↦ ?_,
      fun closer later hcloser ↦ ?_⟩
    · subst htokens
      obtain ⟨q, hq, hvalue⟩ := Tree.read_shortened hendless hending hending' hclosers hstrict
      exact evaluateTokens_of_value_eq (by rfl) hresult hread hq hvalue
    · obtain ⟨q, hq, hvalue⟩ : ∃ q, Tree.read (tokens ++ closer :: later) false options.maxDepth
          = .ok q ∧ q.value = p'.value := Tree.read_continued hendless hending hcloser hstrict
      exact evaluateTokens_of_value_eq (by rfl) hresult hread hq hvalue

/-- `f(true)` is as deep as it may be. In parentheses it needs one level more, and without its last
bracket or with one too many it is still evaluated leniently. -/
theorem evaluateTokens_parentheses_call :
    let tokens : List Token :=
      [⟨.identifier "f", 0⟩, ⟨.openParen, 1⟩, ⟨.boolean true, 2⟩, ⟨.closeParen, 6⟩]
    let first : Callable := .host fun vs ↦ vs.headD (.boolean false)
    let functions : Table Callable := Table.empty.insert "f" first
    let whole := evaluateTokens ([⟨.openParen, 8⟩] ++ tokens ++ [⟨.closeParen, 9⟩] ++ []) ∅
      functions { maxDepth := 3, strict := true }
    let shorter := evaluateTokens
      ([⟨.identifier "f", 0⟩, ⟨.openParen, 1⟩, ⟨.boolean true, 2⟩] ++ []) ∅ functions
      { maxDepth := 2 }
    let longer := evaluateTokens (tokens ++ [⟨.closeParen, 7⟩, ⟨.comma, 8⟩]) ∅ functions
      { maxDepth := 2 }
    whole.result = .ok (.boolean true) ∧ whole.calls.length = 1 ∧
      shorter.result = .ok (.boolean true) ∧ longer.result = .ok (.boolean true) := by
  intro tokens first functions whole shorter longer
  let options : Options := { maxDepth := 2, strict := true }
  have hendless : Endless tokens :=
    .cons (by simp) 0 (.cons (by simp) 1 (.cons (by simp) 2 (.cons (by simp) 6 endless_nil)))
  have hending : front [] = .endOfInput := rfl
  have hresult : (evaluateTokens (tokens ++ []) ∅ functions options).result
      = .ok (.boolean true) := rfl
  have hignored : (evaluateTokens (tokens ++ []) ∅ functions options).ignored? = none := rfl
  obtain ⟨hwhole, haccepted⟩ := evaluateTokens_parentheses hendless hending hresult hignored
  obtain ⟨hshorter, hlonger⟩ := haccepted ⟨_, hresult⟩
  obtain ⟨hwhole, hcalls⟩ := hwhole [⟨.openParen, 8⟩] [⟨.closeParen, 9⟩] [] rfl (by simp) (by simp)
    rfl
  refine ⟨hwhole, congrArg List.length hcalls, ?_, ?_⟩
  · exact (hshorter _ [⟨.closeParen, 6⟩] [] rfl (by simp) rfl).1
  · exact (hlonger ⟨.closeParen, 7⟩ [⟨.comma, 8⟩] rfl).1

end Formula
