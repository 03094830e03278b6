import Formula.Proofs.Steps
import Formula.Proofs.Writing

/-!
# What a level takes

A level that comes back with a value has read at least one token and has put back what it changed:
the depth and the passing over are as they were. A loop behind a level may read nothing, and the
arguments of a call are no more than the tokens that were read for them. None of this asks anything
of the tokens in front, of the state or of the budget.

No level reads an end marker, although the tokens in front may hold any number of them. In the
evaluation `advance` reads whatever is in front, and it is the levels that call it behind a token
that they have looked at. The one place that does not look is a group, which is entered where an
opening bracket was seen; `stride` is the step that never reads a marker, and with it a group can be
said of any state (`grouping`).
-/

namespace Formula

open Formula.Tree Reader

variable {α β : Type}

/-! ## From one state to another -/

/-- Tokens were read and none of them is an end marker. Of the rest only the calls may differ. -/
structure Progress.Passes (read : List Token) (s s' : Progress) : Prop where
  rest : s.rest = read ++ s'.rest
  endless : Endless read
  depth : s'.depth = s.depth
  skipping : s'.skipping = s.skipping

namespace Progress.Passes

variable {s s' s'' : Progress} {read read' : List Token}

theorem refl (s : Progress) : Passes [] s s := ⟨rfl, endless_nil, rfl, rfl⟩

theorem trans (h : Passes read s s') (h' : Passes read' s' s'') :
    Passes (read ++ read') s s'' where
  rest := by rw [h.rest, h'.rest, List.append_assoc]
  endless := h.endless.append h'.endless
  depth := h'.depth.trans h.depth
  skipping := h'.skipping.trans h.skipping

/-- The token in front is passed, if it is not an end marker. -/
theorem tail (hfront : front s.rest ≠ .endOfInput) :
    ∃ t, Passes [t] s { s with rest := s.rest.tail } := by
  obtain ⟨_ | ⟨t, ts⟩, depth, skipping, calls⟩ := s
  · exact absurd rfl hfront
  · exact ⟨t, rfl, .cons hfront t.offset endless_nil, rfl, rfl⟩

theorem length_le (h : Passes read s s') : read.length + s'.rest.length = s.rest.length := by
  rw [h.rest, List.length_append]

end Progress.Passes

/-! ## Steps that consume -/

/-- If a step from `s` succeeds, it has read at least so many tokens, and no end marker. -/
def Consumes (least : α → Nat) (s : Progress) (result : EStateM.Result EvalError Progress α) :
    Prop :=
  ∀ a s', result = .ok a s' → ∃ read, least a ≤ read.length ∧ Progress.Passes read s s'

namespace Consumes

variable {least : α → Nat} {s t : Progress} {result : EStateM.Result EvalError Progress α}

theorem of_error (e : EvalError) (s' : Progress) : Consumes least s (.error e s') :=
  fun _ _ h ↦ nomatch h

theorem of_ok {a : α} {s' : Progress} {read : List Token} (h : Progress.Passes read s s')
    (hleast : least a ≤ read.length) : Consumes least s (.ok a s') := by
  intro a' t ht
  cases ht
  exact ⟨read, hleast, h⟩

theorem mono {more : α → Nat} (h : Consumes more s result) (hle : ∀ a, least a ≤ more a) :
    Consumes least s result := by
  intro a s' hok
  obtain ⟨read, hmore, hpasses⟩ := h a s' hok
  exact ⟨read, Nat.le_trans (hle a) hmore, hpasses⟩

/-- What was read before counts as well. -/
theorem after {fewer : α → Nat} {read : List Token} (hread : Progress.Passes read s t)
    (h : Consumes fewer t result) (hle : ∀ a, least a ≤ read.length + fewer a) :
    Consumes least s result := by
  intro a s' hok
  obtain ⟨read', hfewer, hpasses⟩ := h a s' hok
  refine ⟨read ++ read', ?_, hread.trans hpasses⟩
  rw [List.length_append]
  exact Nat.le_trans (hle a) (Nat.add_le_add_left hfewer _)

theorem bind {x : Step β} {f : β → Step α} {p : β → Nat} {q : β → α → Nat}
    (hx : Consumes p s (x s)) (hf : ∀ b s', Consumes (q b) s' (f b s'))
    (hle : ∀ b a, least a ≤ p b + q b a) : Consumes least s ((x >>= f) s) := by
  cases hres : x s with
  | error e s' =>
    rw [Step.bind_of_error hres]
    exact of_error e s'
  | ok b s' =>
    rw [Step.bind_of_ok hres]
    obtain ⟨read, hp, hpasses⟩ := hx b s' hres
    exact (hf b s').after hpasses fun a ↦ Nat.le_trans (hle b a) (Nat.add_le_add_right hp _)

/-- Behind a step that consumes, another one may read nothing. -/
theorem bind_zero {x : Step β} {f : β → Step α} {m : Nat} (hx : Consumes (fun _ ↦ m) s (x s))
    (hf : ∀ b s', Consumes (fun _ ↦ 0) s' (f b s')) : Consumes (fun _ ↦ m) s ((x >>= f) s) :=
  hx.bind hf fun _ _ ↦ Nat.le_refl m

theorem of_pure (a : α) (s : Progress) : Consumes (fun _ ↦ 0) s ((pure a : Step α) s) :=
  of_ok (.refl s) (Nat.le_refl 0)

/-- A step in a changed state, and the change undone behind it. -/
theorem changed {x : Step α} {undo : Progress → Progress} (hrest : t.rest = s.rest)
    (hundo : ∀ s', s'.depth = t.depth → s'.skipping = t.skipping →
      (undo s').rest = s'.rest ∧ (undo s').depth = s.depth ∧ (undo s').skipping = s.skipping)
    (hx : Consumes least t (x t)) : Consumes least s
      ((do
        let a ← x
        modify undo
        return a : Step α) t) := by
  cases hres : x t with
  | error e s' =>
    rw [Step.bind_of_error hres]
    exact of_error e s'
  | ok a s' =>
    obtain ⟨read, hleast, hpasses⟩ := hx a s' hres
    obtain ⟨hrest', hdepth, hskipping⟩ := hundo s' hpasses.depth hpasses.skipping
    have hback : Progress.Passes read s (undo s') :=
      ⟨by rw [← hrest, hpasses.rest, hrest'], hpasses.endless, hdepth, hskipping⟩
    rw [Step.bind_of_ok hres]
    exact of_ok hback hleast

theorem nested {σ : Setting} {x : Step α} (hx : ∀ s, Consumes least s (x s)) (s : Progress) :
    Consumes least s (Step.nested σ x s) := by
  by_cases hdepth : s.depth < σ.options.maxDepth
  · rw [Step.nested_of_lt σ x hdepth]
    refine changed (by rfl) (fun s' hs' hskipping ↦ ⟨rfl, ?_, hskipping⟩) (hx _)
    simp only [hs', Nat.add_sub_cancel]
  · rw [Step.nested_of_le σ x (Nat.not_lt.mp hdepth)]
    exact of_error _ s

theorem skippingIf {x : Step α} (b : Bool) (hx : ∀ s, Consumes least s (x s)) (s : Progress) :
    Consumes least s (Step.skippingIf b x s) := by
  rw [Step.skippingIf_apply]
  exact changed (by rfl) (fun s' hdepth _ ↦ ⟨rfl, hdepth, rfl⟩) (hx _)

theorem refuse (σ : Setting) (s : Progress) : Consumes least s (Step.refuse σ s) := by
  rw [Step.refuse_apply]
  exact of_error _ s

/-- A run reads nothing. -/
theorem ofRun (r : Run α) (s : Progress) : Consumes (fun _ ↦ 0) s (Step.ofRun r s) := by
  rw [Step.ofRun]
  cases r.result with
  | ok a => exact of_ok ⟨rfl, endless_nil, rfl, rfl⟩ (Nat.zero_le _)
  | error e => exact of_error e _

theorem closeParen (σ : Setting) (s : Progress) :
    Consumes (fun _ ↦ 0) s (Step.closeParen σ s) := by
  rw [Step.closeParen_apply]
  split
  · next hfront =>
    obtain ⟨t, ht⟩ := Progress.Passes.tail (s := s) (by simp [hfront])
    exact of_ok ht (Nat.zero_le _)
  · split
    · exact of_error _ s
    · exact of_ok (.refl s) (Nat.zero_le _)

theorem comma (s : Progress) : Consumes (fun _ ↦ 0) s (Step.comma s) := by
  have hcomma : Step.comma s = .ok () { s with rest := afterComma s.rest } := rfl
  rw [hcomma]
  by_cases hfront : front s.rest = .comma
  · obtain ⟨t, ht⟩ := Progress.Passes.tail (s := s) (by simp [hfront])
    have hafter : afterComma s.rest = s.rest.tail := by rw [afterComma, hfront]
    exact of_ok (hafter ▸ ht) (Nat.zero_le _)
  · have hafter : afterComma s.rest = s.rest := by
      rw [afterComma]
      split
      · next h => exact absurd h hfront
      · rfl
    have hnothing : Progress.Passes [] s { s with rest := afterComma s.rest } :=
      ⟨hafter.symm, endless_nil, rfl, rfl⟩
    exact of_ok hnothing (Nat.zero_le _)

/-- A joint and its right operand, if they are there. -/
theorem round {l : Level} {operand : Joint → Value → Step Value} {again : Value → Step Value}
    (hoperand : ∀ j v s, Consumes (fun _ ↦ 1) s (operand j v s))
    (hagain : ∀ v s, Consumes (fun _ ↦ 0) s (again v s)) (v : Value) (s : Progress) :
    Consumes (fun _ ↦ 0) s (Step.round l operand again v s) := by
  cases hj : Joint.atLevel? l (front s.rest) with
  | none =>
    rw [Step.round_end hj]
    exact of_ok (.refl s) (Nat.le_refl 0)
  | some j =>
    obtain ⟨t, ht⟩ := Progress.Passes.tail (Joint.ne_endOfInput hj)
    rw [Step.round_joint hj]
    exact ((hoperand j v _).bind_zero fun w s' ↦ hagain _ s').after ht fun _ ↦ Nat.zero_le _

end Consumes

/-! ## The levels -/

namespace Step

/-- Reads the token in front, unless it is an end marker. -/
def stride : Step Unit := do
  match ← peek with
  | .endOfInput => return ()
  | _ => advance

/-- An expression in brackets. Whether the opening bracket is there has been looked at before. -/
def grouping (σ : Setting) (n : Nat) : Step Value := do
  stride
  let v ← expression σ n
  closeParen σ
  return v

/-- The arguments of a call and the closing bracket behind them. -/
def argumentList (σ : Setting) (n : Nat) : Step (List Value) := do
  let vs ← arguments σ n
  closeParen σ
  return vs

theorem stride_bind (f : Unit → Step β) (s : Progress) : (stride >>= f) s
    = f () (if front s.rest = .endOfInput then s else { s with rest := s.rest.tail }) := by
  obtain ⟨_ | ⟨t, ts⟩, depth, skipping, calls⟩ := s
  · rfl
  · by_cases ht : t.kind = .endOfInput
    · rw [if_pos (show front (t :: ts) = .endOfInput from ht), stride, bind_assoc, peek_bind, front,
        ht]
      rfl
    · rw [if_neg (show ¬front (t :: ts) = .endOfInput from ht), stride, bind_assoc, peek_bind,
        front]
      cases hkind : t.kind <;> first | rfl | exact absurd hkind ht

/-- At an opening bracket an operand is a group. -/
theorem operand_group (σ : Setting) (n : Nat) {s : Progress} (h : front s.rest = .openParen) :
    operand σ (n + 1) s = grouping σ n s := by
  rw [operand, position_bind, peek_bind, h, grouping, stride_bind, if_neg (by simp [h])]
  rfl

/-- At a name in front of an opening bracket it is a call. -/
theorem operand_call (σ : Setting) (n : Nat) {s : Progress} {name : String}
    (h : front s.rest = .identifier name) (hparen : front s.rest.tail = .openParen) :
    operand σ (n + 1) s = (argumentList σ n >>= fun vs ↦
      call σ name vs (σ.grammar.position s.rest)) { s with rest := s.rest.tail.tail } := by
  rw [operand, position_bind, peek_bind, h, argumentList]
  simp only [advance_bind, peek_bind, bind_assoc, pure_bind]
  rw [hparen]
  rfl

/-- At any other name it is a look-up. -/
theorem operand_name (σ : Setting) (n : Nat) {s : Progress} {name : String}
    (h : front s.rest = .identifier name) (hparen : front s.rest.tail ≠ .openParen) :
    operand σ (n + 1) s
      = lookUp σ name (σ.grammar.position s.rest) { s with rest := s.rest.tail } := by
  rw [operand, position_bind, peek_bind, h]
  simp only [advance_bind, peek_bind]

/-- The levels that read an operand of some kind, and a group. -/
def levels (σ : Setting) (n : Nat) : List (Step Value) :=
  [expression σ n, condition σ n, term σ n, comparison σ n, sum σ n, product σ n, operand σ n,
    grouping σ n]

end Step

/-- What every level consumes under a budget. -/
structure Consuming (σ : Setting) (n : Nat) : Prop where
  expression : ∀ s, Consumes (fun _ ↦ 1) s (Step.expression σ n s)
  condition : ∀ s, Consumes (fun _ ↦ 1) s (Step.condition σ n s)
  conditionsFrom : ∀ v s, Consumes (fun _ ↦ 0) s (Step.conditionsFrom σ n v s)
  term : ∀ s, Consumes (fun _ ↦ 1) s (Step.term σ n s)
  termsFrom : ∀ v s, Consumes (fun _ ↦ 0) s (Step.termsFrom σ n v s)
  comparison : ∀ s, Consumes (fun _ ↦ 1) s (Step.comparison σ n s)
  sum : ∀ s, Consumes (fun _ ↦ 1) s (Step.sum σ n s)
  productsFrom : ∀ v s, Consumes (fun _ ↦ 0) s (Step.productsFrom σ n v s)
  product : ∀ s, Consumes (fun _ ↦ 1) s (Step.product σ n s)
  operandsFrom : ∀ v s, Consumes (fun _ ↦ 0) s (Step.operandsFrom σ n v s)
  operand : ∀ s, Consumes (fun _ ↦ 1) s (Step.operand σ n s)
  arguments : ∀ s, Consumes List.length s (Step.arguments σ n s)

/-- An operand and a loop behind it. -/
theorem Consumes.row {x : Step Value} {loop : Value → Step Value}
    (hx : ∀ s, Consumes (fun _ ↦ 1) s (x s)) (hloop : ∀ v s, Consumes (fun _ ↦ 0) s (loop v s))
    (s : Progress) : Consumes (fun _ ↦ 1) s ((x >>= loop) s) :=
  (hx s).bind_zero hloop

namespace Consuming

variable {σ : Setting} {n : Nat}

/-- What stands in brackets, and perhaps the closing one. -/
theorem closed (hn : Consuming σ n) (s : Progress) : Consumes (fun _ ↦ 1) s ((do
    let v ← Step.expression σ n
    Step.closeParen σ
    return v : Step Value) s) := by
  refine (hn.expression s).bind_zero fun v s' ↦ ?_
  exact (Consumes.closeParen σ s').bind_zero fun _ s'' ↦ .of_pure v s''

theorem argumentList (hn : Consuming σ n) (s : Progress) :
    Consumes List.length s (Step.argumentList σ n s) := by
  refine (hn.arguments s).bind (q := fun vs ws ↦ ws.length - vs.length) (fun vs s' ↦ ?_)
    fun _ _ ↦ by omega
  refine (Consumes.closeParen σ s').bind (q := fun _ ws ↦ ws.length - vs.length)
    (fun _ s'' ↦ ?_) fun _ _ ↦ by omega
  exact .of_ok (.refl s'') (by simp)

theorem grouping (hn : Consuming σ n) (s : Progress) :
    Consumes (fun _ ↦ 1) s (Step.grouping σ n s) := by
  rw [Step.grouping, Step.stride_bind]
  by_cases hfront : front s.rest = .endOfInput
  · rw [if_pos hfront]
    exact hn.closed s
  · rw [if_neg hfront]
    obtain ⟨t, ht⟩ := Progress.Passes.tail hfront
    exact (hn.closed _).after ht fun _ ↦ Nat.le_add_left 1 _

theorem call (hn : Consuming σ n) (name : String) (offset : Nat) (s : Progress) :
    Consumes (fun _ ↦ 0) s
      ((Step.argumentList σ n >>= fun vs ↦ Step.call σ name vs offset) s) := by
  have harguments : Consumes (fun _ ↦ 0) s (Step.argumentList σ n s) :=
    (hn.argumentList s).mono fun _ ↦ Nat.zero_le _
  refine harguments.bind_zero fun vs s' ↦ ?_
  rw [Step.call_apply]
  exact .ofRun _ s'

theorem operand_succ (hn : Consuming σ n) (s : Progress) :
    Consumes (fun _ ↦ 1) s (Step.operand σ (n + 1) s) := by
  have hread : ∀ {k : TokenKind} {t : Progress}, front t.rest = k → k ≠ .endOfInput →
      ∃ u, Progress.Passes [u] t { t with rest := t.rest.tail } :=
    fun hk hne ↦ Progress.Passes.tail (hk ▸ hne)
  have hliteral : ∀ {k : TokenKind} (v : Value), front s.rest = k → k ≠ .endOfInput →
      Consumes (fun _ ↦ 1) s (.ok v { s with rest := s.rest.tail }) := by
    intro k v hk hne
    obtain ⟨u, hu⟩ := hread hk hne
    exact .of_ok hu (Nat.le_refl 1)
  cases hfront : front s.rest
  case openParen =>
    rw [Step.operand_group σ n hfront]
    exact hn.grouping s
  case identifier name =>
    obtain ⟨u, hu⟩ := hread hfront (by simp)
    by_cases hparen : front s.rest.tail = .openParen
    · obtain ⟨u', hu'⟩ := hread (t := { s with rest := s.rest.tail }) hparen (by simp)
      rw [Step.operand_call σ n hfront hparen]
      exact (hn.call name _ _).after (hu.trans hu') fun _ ↦ Nat.le_add_left 1 _
    · rw [Step.operand_name σ n hfront hparen, Step.lookUp_apply]
      exact (Consumes.ofRun _ _).after hu fun _ ↦ Nat.le_refl 1
  all_goals rw [Step.operand, Step.position_bind, Step.peek_bind, hfront]
  case number x => exact hliteral (.number x) hfront (by simp)
  case text t => exact hliteral (.text t) hfront (by simp)
  case boolean b => exact hliteral (.boolean b) hfront (by simp)
  all_goals exact .refuse σ s

theorem arguments_succ (hn : Consuming σ n) (s : Progress) :
    Consumes List.length s (Step.arguments σ (n + 1) s) := by
  by_cases hends : endsArguments (front s.rest)
  · rw [Step.arguments_end σ n hends]
    exact .of_ok (.refl s) (Nat.le_refl 0)
  · -- the expression pays for the argument, whether or not a comma follows
    rw [Step.arguments_more σ n hends]
    refine (hn.expression s).bind (q := fun _ vs ↦ vs.length - 1) (fun v s' ↦ ?_)
      fun _ _ ↦ by omega
    refine (Consumes.comma s').bind (q := fun _ vs ↦ vs.length - 1) (fun _ s'' ↦ ?_)
      fun _ _ ↦ by omega
    refine (hn.arguments s'').bind (q := fun ws vs ↦ vs.length - 1 - ws.length) (fun ws s₃ ↦ ?_)
      fun _ _ ↦ by omega
    exact .of_ok (.refl s₃) (by simp)

theorem zero (σ : Setting) : Consuming σ 0 where
  expression s := .refuse σ s
  condition s := .refuse σ s
  conditionsFrom _ s := .refuse σ s
  term s := .refuse σ s
  termsFrom _ s := .refuse σ s
  comparison s := .refuse σ s
  sum s := .refuse σ s
  productsFrom _ s := .refuse σ s
  product s := .refuse σ s
  operandsFrom _ s := .refuse σ s
  operand s := .refuse σ s
  arguments s := .refuse σ s

theorem term_succ (hn : Consuming σ n) (s : Progress) :
    Consumes (fun _ ↦ 1) s (Step.term σ (n + 1) s) := by
  rw [Step.term, Step.peek_bind]
  by_cases hnot : (front s.rest).isKeyword "not" = true
  · rw [if_pos hnot, Step.advance_bind]
    obtain ⟨t, ht⟩ := Progress.Passes.tail (s := s) (by simp [TokenKind.eq_of_isKeyword hnot])
    exact ((Consumes.nested hn.term _).bind_zero fun v s' ↦ .of_pure _ s').after ht
      fun _ ↦ Nat.le_add_left 1 _
  · rw [if_neg hnot]
    exact hn.comparison s

theorem succ (hn : Consuming σ n) : Consuming σ (n + 1) where
  expression := by
    rw [Step.expression]
    exact .nested (.row hn.condition hn.conditionsFrom)
  condition := by
    rw [Step.condition]
    exact .row hn.term hn.termsFrom
  conditionsFrom := by
    rw [Step.conditionsFrom_succ]
    exact .round (fun j v ↦ .skippingIf _ hn.condition) hn.conditionsFrom
  term := hn.term_succ
  termsFrom := by
    rw [Step.termsFrom_succ]
    exact .round (fun j v ↦ .skippingIf _ hn.term) hn.termsFrom
  comparison := by
    rw [Step.comparison_succ]
    exact .row hn.sum
      (.round (fun j v ↦ hn.sum) fun v s ↦ .of_pure v s)
  sum := by
    rw [Step.sum]
    exact .row hn.product hn.productsFrom
  productsFrom := by
    rw [Step.productsFrom_succ]
    exact .round (fun j v ↦ hn.product) hn.productsFrom
  product := by
    rw [Step.product]
    exact .row hn.operand hn.operandsFrom
  operandsFrom := by
    rw [Step.operandsFrom_succ]
    exact .round (fun j v ↦ hn.operand) hn.operandsFrom
  operand := hn.operand_succ
  arguments := hn.arguments_succ

end Consuming

/-- **Every level consumes**, under any setting and any budget. -/
theorem consuming (σ : Setting) (n : Nat) : Consuming σ n := by
  induction n with
  | zero => exact .zero σ
  | succ n ih => exact ih.succ

theorem Step.consumes_of_mem_levels {σ : Setting} {n : Nat} {x : Step Value}
    (h : x ∈ Step.levels σ n) (s : Progress) : Consumes (fun _ ↦ 1) s (x s) := by
  have hn := consuming σ n
  simp only [Step.levels, List.mem_cons, List.not_mem_nil, or_false] at h
  rcases h with rfl | rfl | rfl | rfl | rfl | rfl | rfl | rfl
  · exact hn.expression s
  · exact hn.condition s
  · exact hn.term s
  · exact hn.comparison s
  · exact hn.sum s
  · exact hn.product s
  · exact hn.operand s
  · exact hn.grouping s

end Formula
