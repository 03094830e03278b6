import Mathlib.Data.List.Chain
import Formula.Proofs.TwoPhases
import Formula.Proofs.Writing

/-!
# Sentences

The grammar as a relation on tokens alone: which lists of tokens may stand in a place of the scale
of `Formula.Proofs.Writing`. No reader, no order of reading and no tree occurs in it. A writing of
a tree has parentheses only where they are needed and no name that is a keyword; a phrase may have
parentheses anywhere and any names.

What strict evaluation accepts is a sentence, which is a phrase in the place of an expression: every
bracket in it is closed, and nothing is left over. But it is a sentence only of a grammar in which
the comma between two arguments may be missing. Where commas are needed, two literals never stand
side by side (`Phrase.apart`), and in the arguments of a call that is accepted they may.

Each reader takes from the front of the tokens a stretch that is a phrase of its place
(`Reader.Takes`). A row takes its operands one by one, and what it has taken so far is a phrase of
its level at every moment, which is what the induction needs.
-/

namespace Formula

open Formula.Tree Reader

/-! ## Phrases -/

/-- What a grammar says about the commas between arguments. -/
structure Commas where
  /-- Whether the comma between two arguments may be missing. -/
  optional : Bool
  /-- Whether a comma may stand alone in the brackets of a call. -/
  alone : Bool

mutual

/-- What may stand in a place. A name may be a keyword, and where an operand is expected it is then
a name like any other. -/
inductive Phrase (c : Commas) : Nat → List Token → Prop
  | literal (v : Value) (n : Nat) : Phrase c 6 [⟨v.mark, n⟩]
  | named (name : String) (n : Nat) : Phrase c 6 [⟨.identifier name, n⟩]
  | group {us : List Token} (n n' : Nat) (h : Phrase c 0 us) :
    Phrase c 6 (⟨.openParen, n⟩ :: (us ++ [⟨.closeParen, n'⟩]))
  | call (name : String) {us : List Token} (n n' n'' : Nat) (h : Arguments c us) :
    Phrase c 6 (⟨.identifier name, n⟩ :: ⟨.openParen, n'⟩ :: (us ++ [⟨.closeParen, n''⟩]))
  | callComma (name : String) (n n' m n'' : Nat) (hc : c.alone) :
    Phrase c 6 [⟨.identifier name, n⟩, ⟨.openParen, n'⟩, ⟨.comma, m⟩, ⟨.closeParen, n''⟩]
  | not {us : List Token} (n : Nat) (h : Phrase c 2 us) :
    Phrase c 2 (⟨.identifier "not", n⟩ :: us)
  | joined (j : Joint) {us us' : List Token} (n : Nat) (hleft : Phrase c j.level.leftPosition us)
    (hright : Phrase c j.level.rightPosition us') :
    Phrase c j.level.position (us ++ ⟨j.mark, n⟩ :: us')
  | looser {p q : Nat} {us : List Token} (h : p ≤ q) (hus : Phrase c q us) : Phrase c p us

/-- Arguments with a comma between any two of them, unless it may be missing. Behind the last one
there may be one more. -/
inductive Arguments (c : Commas) : List Token → Prop
  | none : Arguments c []
  | last {us : List Token} (h : Phrase c 0 us) : Arguments c us
  | comma {us us' : List Token} (n : Nat) (h : Phrase c 0 us) (hus' : Arguments c us') :
    Arguments c (us ++ ⟨.comma, n⟩ :: us')
  | missing {us us' : List Token} (hc : c.optional) (h : Phrase c 0 us) (hus' : Arguments c us') :
    Arguments c (us ++ us')

end

/-! ## What stands side by side -/

/-- Whether a token is a number, a text or a truth value. -/
def TokenKind.isLiteral : TokenKind → Bool
  | number _ | text _ | boolean _ => true
  | _ => false

theorem Joint.isLiteral_mark (j : Joint) : j.mark.isLiteral = false := by
  cases j <;> rfl

/-- No two literals stand side by side. -/
def Apart (ts : List Token) : Prop :=
  ts.IsChain fun t u ↦ ¬(t.kind.isLiteral ∧ u.kind.isLiteral)

namespace Apart

theorem nil : Apart [] := List.isChain_nil

theorem singleton (t : Token) : Apart [t] := List.isChain_singleton t

/-- A token that is no literal keeps apart what stands on its two sides. -/
theorem append_cons {us us' : List Token} (h : Apart us) (h' : Apart us') {t : Token}
    (ht : t.kind.isLiteral = false) : Apart (us ++ t :: us') := by
  refine List.isChain_append.mpr ⟨h, List.isChain_cons.mpr ⟨?_, h'⟩, ?_⟩
  · rintro u - ⟨ht', -⟩
    exact absurd ht' (by simp [ht])
  · rintro s - u hu ⟨-, hu'⟩
    obtain rfl : t = u := by simpa using hu
    exact absurd hu' (by simp [ht])

theorem cons {us : List Token} (h : Apart us) {t : Token} (ht : t.kind.isLiteral = false) :
    Apart (t :: us) :=
  append_cons nil h ht

/-- Brackets keep apart what is in them. -/
theorem bracketed {us : List Token} (h : Apart us) (n n' : Nat) :
    Apart (⟨.openParen, n⟩ :: (us ++ [⟨.closeParen, n'⟩])) :=
  (h.append_cons nil rfl).cons rfl

end Apart

mutual

/-- **Where commas are needed, two literals never stand side by side.** -/
theorem Phrase.apart {c : Commas} (hc : c.optional = false) {p : Nat} {ts : List Token} :
    Phrase c p ts → Apart ts
  | .literal v n => .singleton _
  | .named name n => .singleton _
  | .group n n' h => (h.apart hc).bracketed n n'
  | .call name n n' n'' h => ((h.apart hc).bracketed n' n'').cons rfl
  | .callComma name n n' m n'' _ => ((Apart.singleton ⟨.comma, m⟩).bracketed n' n'').cons rfl
  | .not n h => (h.apart hc).cons rfl
  | .joined j n hleft hright => (hleft.apart hc).append_cons (hright.apart hc) j.isLiteral_mark
  | .looser _ h => h.apart hc

theorem Arguments.apart {c : Commas} (hc : c.optional = false) {ts : List Token} :
    Arguments c ts → Apart ts
  | .none => .nil
  | .last h => h.apart hc
  | .comma n h hus' => (h.apart hc).append_cons (hus'.apart hc) rfl
  | .missing hc' _ _ => absurd hc' (by simp [hc])

end

/-! ## What is taken -/

namespace Reader

variable {α β : Type} {P Q : List Token → Prop} {c : Commas}

/-- What a reader takes from the front of the tokens is of a certain kind. -/
def Takes (r : Reader α) (P : List Token → Prop) : Prop :=
  ∀ ts p, r ts = .ok p → ∃ us, ts = us ++ p.rest ∧ P us

theorem Takes.imp {r : Reader α} (h : r.Takes P) (hPQ : ∀ us, P us → Q us) : r.Takes Q := by
  intro ts p hp
  obtain ⟨us, hts, hus⟩ := h ts p hp
  exact ⟨us, hts, hPQ us hus⟩

theorem Takes.within {r : Reader α} (h : r.Takes P) (frames : List Frame) :
    (within frames r).Takes P :=
  fun ts p hp ↦ h ts p (within_eq_ok.mp hp)

/-- What comes second is taken from where the first reader stopped. -/
theorem Takes.bind {r : Reader α} {next : α → Reader β} (hr : r.Takes P)
    (hnext : ∀ a us, P us → (next a).Takes fun us' ↦ Q (us ++ us')) : (r >>= next).Takes Q := by
  intro ts q hq
  obtain ⟨p, q', hp, hq', rfl⟩ := andThen_eq_ok hq
  obtain ⟨us, rfl, hus⟩ := hr ts p hp
  obtain ⟨us', hrest, hus'⟩ := hnext p.value us hus _ _ hq'
  exact ⟨us ++ us', by rw [hrest, List.append_assoc], hus'⟩

theorem takes_pure {a : α} (h : P []) : (pure a : Reader α).Takes P := by
  intro ts p hp
  obtain rfl : ⟨a, ts, 0⟩ = p := by simpa using hp
  exact ⟨[], rfl, h⟩

theorem eq_cons_of_front {ts : List Token} {k : TokenKind} (h : front ts = k)
    (hk : k ≠ .endOfInput) : ∃ n, ts = ⟨k, n⟩ :: ts.tail := by
  cases ts with
  | nil => exact absurd h.symm hk
  | cons t ts =>
    subst h
    exact ⟨t.offset, rfl⟩

/-- What is taken behind the token in front is taken together with it. -/
theorem Takes.tail {r : Reader α} {k : TokenKind} (h : ∀ n, r.Takes fun us ↦ P (⟨k, n⟩ :: us))
    {ts : List Token} {p : Part α} (hfront : front ts = k) (hk : k ≠ .endOfInput)
    (hp : r ts.tail = .ok p) : ∃ us, ts = us ++ p.rest ∧ P us := by
  obtain ⟨n, hts⟩ := eq_cons_of_front hfront hk
  obtain ⟨us, hrest, hus⟩ := h n ts.tail p hp
  exact ⟨⟨k, n⟩ :: us, by rw [List.cons_append, ← hrest, ← hts], hus⟩

/-! ### Rows -/

/-- A further operand is taken together with the joint in front of it. -/
theorem takes_joined {l : Level} {us : List Token} (hus : Phrase c l.leftPosition us)
    {operand : Reader Tree} (hoperand : operand.Takes (Phrase c l.rightPosition))
    {next : Tree → Reader Tree} {P : List Token → Prop}
    (hnext : ∀ t us', Phrase c l.position (us ++ us') → (next t).Takes fun vs ↦ P (us' ++ vs))
    {ts : List Token} {j : Joint} (hj : Joint.atLevel? l (front ts) = some j) {left : Tree}
    {p : Part Tree} (hp : (do
      let right ← within [.right j left] operand
      next (.joined j left right)) ts.tail = .ok p) : ∃ us', ts = us' ++ p.rest ∧ P us' := by
  obtain ⟨rfl, hmark⟩ := Joint.eq_of_atLevel? hj
  refine Takes.tail (fun n ↦ ?_) hmark (hmark ▸ Joint.ne_endOfInput hj) hp
  refine (hoperand.within _).bind fun right vs hvs ↦ ?_
  exact hnext _ (⟨j.mark, n⟩ :: vs) (.joined j n hus hvs)

theorem takes_rowFrom {l : Level} (hl : l ≠ .comparison) {operand : Reader Tree}
    (hoperand : operand.Takes (Phrase c l.rightPosition)) (n : Nat) :
    ∀ (left : Tree) (us : List Token), Phrase c l.position us →
      (rowFrom l operand n left).Takes fun us' ↦ Phrase c l.position (us ++ us') := by
  induction n with
  | zero => exact fun left us hus ↦ takes_pure (by rwa [List.append_nil])
  | succ n ih =>
    intro left us hus ts p hp
    rcases hj : Joint.atLevel? l (front ts) with _ | j
    · rw [rowFrom_end hj] at hp
      exact takes_pure (by rwa [List.append_nil]) ts p hp
    · rw [rowFrom_joint hj] at hp
      have hleft : Phrase c l.leftPosition us := by rwa [Level.leftPosition_of_ne hl]
      refine takes_joined hleft hoperand (fun t us' h ↦ ?_) hj hp
      simpa only [List.append_assoc] using ih t (us ++ us') h

/-- **A row is a phrase of its level**, if its operands are tighter. -/
theorem takes_row {l : Level} (hl : l ≠ .comparison) {operand : Reader Tree}
    (hoperand : operand.Takes (Phrase c l.rightPosition)) :
    (row l operand).Takes (Phrase c l.position) := by
  intro ts p hp
  refine (hoperand.bind fun left us hus ↦ ?_) ts p hp
  exact takes_rowFrom hl hoperand ts.length left us (.looser (Nat.le_succ _) hus)

/-! ### Arguments -/

theorem takes_comma : comma.Takes fun us ↦ us = [] ∨ ∃ n, us = [⟨.comma, n⟩] := by
  intro ts p hp
  obtain rfl := Except.ok.inj hp
  simp only [afterComma]
  split
  · next hfront =>
    obtain ⟨n, hts⟩ := eq_cons_of_front hfront (by simp)
    exact ⟨[⟨.comma, n⟩], hts, .inr ⟨n, rfl⟩⟩
  · exact ⟨[], rfl, .inl rfl⟩

/-- A comma is taken behind an argument if there is one, and it is not missed otherwise. -/
theorem takes_arguments (hc : c.optional) {argument : Reader Tree}
    (h : argument.Takes (Phrase c 0)) (n : Nat) :
    (arguments argument n).Takes (Arguments c) := by
  induction n with
  | zero => exact takes_pure .none
  | succ n ih =>
    intro ts p hp
    by_cases hends : endsArguments (front ts)
    · rw [arguments_end hends] at hp
      exact takes_pure .none ts p hp
    · rw [arguments_more hends] at hp
      refine (h.bind fun first us hus ↦ takes_comma.bind fun _ separator hseparator ↦ ?_) ts p hp
      refine (ih.within _).bind fun others us' hus' ↦ takes_pure ?_
      rw [List.append_nil]
      rcases hseparator with rfl | ⟨n, rfl⟩
      · exact .missing hc hus hus'
      · exact .comma n hus hus'

end Reader

namespace Grammar

variable {g : Grammar} {c : Commas}

theorem takes_closing (hg : g.strict) : g.closing.Takes fun us ↦ ∃ n, us = [⟨.closeParen, n⟩] := by
  intro ts p hp
  unfold closing at hp
  split at hp
  · next hfront =>
    exact Takes.tail (r := pure ()) (fun n ↦ takes_pure ⟨n, rfl⟩) hfront (by simp) hp
  · exact absurd hp (by simp [hg])

/-- Strictly, what is put in brackets is taken together with the one that closes them. -/
theorem takes_closed (hg : g.strict) {α : Type} {r : Reader α} {P : List Token → Prop}
    (hr : r.Takes P) (frames : α → List Frame) (f : α → Tree) :
    (do
      let a ← r
      within (frames a) g.closing
      return f a : Reader Tree).Takes
        fun us ↦ ∃ us' n, us = us' ++ [⟨.closeParen, n⟩] ∧ P us' := by
  refine hr.bind fun a us' hus' ↦ ((takes_closing hg).within _).bind ?_
  rintro _ _ ⟨n, rfl⟩
  exact takes_pure ⟨us', n, by rw [List.append_nil], hus'⟩

theorem takes_tooDeep (P : List Token → Prop) : (g.tooDeep : Reader Tree).Takes P :=
  fun ts p hp ↦ absurd hp (by simp [tooDeep])

/-- **Strictly, an operand has all its brackets.** -/
theorem takes_operand (hg : g.strict) (hc : c.optional) {group : Reader Tree}
    (hgroup : group.Takes (Phrase c 0)) : (g.operand group).Takes (Phrase c 6) := by
  intro ts p hp
  have hliteral : ∀ v : Value, front ts = v.mark →
      (pure (.literal v) : Reader Tree) ts.tail = .ok p →
      ∃ us, ts = us ++ p.rest ∧ Phrase c 6 us := fun v hfront ↦
    Takes.tail (fun n ↦ takes_pure (.literal v n)) hfront (by cases v <;> simp [Value.mark])
  unfold operand at hp
  split at hp
  · next x hfront => exact hliteral (.number x) hfront hp
  · next s hfront => exact hliteral (.text s) hfront hp
  · next b hfront => exact hliteral (.boolean b) hfront hp
  · next hfront =>
    refine Takes.tail (fun n ↦ (takes_closed hg hgroup _ _).imp ?_) hfront (by simp) hp
    rintro _ ⟨us, n', rfl, hus⟩
    exact .group n n' hus
  · next name hfront =>
    split at hp
    · next hopen =>
      obtain ⟨n, hts⟩ := eq_cons_of_front hfront (by simp)
      have hcall : ∃ us, ts.tail = us ++ p.rest ∧ Phrase c 6 (⟨.identifier name, n⟩ :: us) := by
        have harguments := takes_arguments hc hgroup ts.length
        refine Takes.tail (fun n' ↦ (takes_closed hg harguments _ _).imp ?_) hopen (by simp) hp
        rintro _ ⟨us, n'', rfl, hus⟩
        exact .call name n n' n'' hus
      obtain ⟨us, hrest, hus⟩ := hcall
      exact ⟨⟨.identifier name, n⟩ :: us, by rw [List.cons_append, ← hrest, ← hts], hus⟩
    · exact Takes.tail (r := pure _) (fun n ↦ takes_pure (.named name n)) hfront (by simp) hp
  · exact absurd hp (by simp [refuse])

theorem takes_sum (hg : g.strict) (hc : c.optional) {group : Reader Tree}
    (hgroup : group.Takes (Phrase c 0)) : (g.sum group).Takes (Phrase c 4) :=
  takes_row (by simp) (takes_row (by simp) (takes_operand hg hc hgroup))

/-- A comparison is no row: it has at most two operands. -/
theorem takes_comparison (hg : g.strict) (hc : c.optional) {group : Reader Tree}
    (hgroup : group.Takes (Phrase c 0)) : (g.comparison group).Takes (Phrase c 3) := by
  have hsum := takes_sum hg hc hgroup
  refine hsum.bind fun left us hus ts p hp ↦ ?_
  rcases hj : Joint.atLevel? .comparison (front ts) with _ | j
  · rw [rowFrom_end hj] at hp
    exact takes_pure (by rw [List.append_nil]; exact .looser (by decide) hus) ts p hp
  · rw [rowFrom_joint hj] at hp
    have hend : ∀ (t : Tree) (us' : List Token), Phrase c 3 (us ++ us') →
        (rowFrom .comparison (g.sum group) 0 t).Takes fun vs ↦ Phrase c 3 (us ++ (us' ++ vs)) :=
      fun t us' h ↦ takes_pure (by rwa [List.append_nil])
    exact takes_joined hus hsum hend hj hp

theorem takes_termOver (hg : g.strict) (hc : c.optional) {negated group : Reader Tree}
    (hnegated : negated.Takes (Phrase c 2)) (hgroup : group.Takes (Phrase c 0)) :
    (g.termOver negated group).Takes (Phrase c 2) := by
  intro ts p hp
  unfold termOver at hp
  split at hp
  · next hnot =>
    refine Takes.tail (fun n ↦ ?_) (TokenKind.eq_of_isKeyword hnot) (by simp) hp
    refine hnegated.bind fun t us hus ↦ takes_pure ?_
    rw [List.append_nil]
    exact .not n hus
  · exact ((takes_comparison hg hc hgroup).imp fun us ↦ .looser (by decide)) ts p hp

theorem takes_expressionOver {term : Reader Tree} (hterm : term.Takes (Phrase c 2)) :
    (expressionOver term).Takes (Phrase c 0) :=
  takes_row (by simp) (takes_row (by simp) hterm)

theorem takes_term (hg : g.strict) (hc : c.optional) (depth : Nat) :
    (g.term depth).Takes (Phrase c 2) := by
  induction depth with
  | zero => exact takes_termOver hg hc (takes_tooDeep _) (takes_tooDeep _)
  | succ depth ih => exact takes_termOver hg hc ih (takes_expressionOver ih)

/-- **Strictly, what is read as an expression is one.** -/
theorem takes_expression (hg : g.strict) (hc : c.optional) (depth : Nat) :
    (g.expression depth).Takes (Phrase c 0) := by
  cases depth with
  | zero => exact takes_tooDeep _
  | succ depth => exact takes_expressionOver (takes_term hg hc depth)

/-- Strictly, nothing is left over. -/
theorem ending_eq_ok (hg : g.strict) {ts : List Token} {p : Part Unit}
    (h : g.ending ts = .ok p) : ts = [] := by
  cases ts with
  | nil => rfl
  | cons t ts => exact absurd h (by simp [ending, hg])

end Grammar

/-! ## Whole lists of tokens -/

/-- What is read strictly is a sentence. -/
theorem phrase_of_read {c : Commas} (hc : c.optional) {tokens : List Token} {maxDepth : Nat}
    {p : Part Tree} (h : Tree.read tokens true maxDepth = .ok p) :
    Phrase c 0 (beforeEnd tokens) := by
  unfold Tree.read at h
  simp only [bind_apply] at h
  obtain ⟨q, _, hq, hending, -⟩ := andThen_eq_ok h
  obtain ⟨q', _, hq', -, -⟩ := andThen_eq_ok hending
  obtain ⟨us, hts, hus⟩ := Grammar.takes_expression rfl hc maxDepth _ _ hq
  have hrest : q.rest = [] := Grammar.ending_eq_ok rfl (within_eq_ok.mp hq')
  rw [hrest, List.append_nil] at hts
  exact hts ▸ hus

/-- **Strict evaluation accepts only sentences**, of the grammar in which the comma between two
arguments may be missing. -/
theorem evaluateTokens_sentence (tokens : List Token) (bindings : Table Value)
    (functions : Table Callable) (options : Options) (hstrict : options.strict) {v : Value}
    (hv : (evaluateTokens tokens bindings functions options).result = .ok v) :
    Phrase ⟨true, false⟩ 0 (beforeEnd tokens) := by
  obtain ⟨p, hread, -⟩ :=
    (agrees_evaluateTokens tokens bindings functions options).unread_of_ok v hv
  rw [hstrict] at hread
  exact phrase_of_read rfl hread

/-- `f((x) not true,)` is accepted: the comma behind the first argument is missing, and the one
behind the second is too many. -/
theorem evaluateTokens_sentence_call :
    let tokens : List Token := [⟨.identifier "f", 0⟩, ⟨.openParen, 1⟩, ⟨.openParen, 2⟩,
      ⟨.identifier "x", 3⟩, ⟨.closeParen, 4⟩, ⟨.identifier "not", 6⟩, ⟨.boolean true, 10⟩,
      ⟨.comma, 14⟩, ⟨.closeParen, 15⟩, ⟨.endOfInput, 16⟩]
    let last : Callable := .host fun vs ↦ vs.getLastD (.boolean true)
    let report := evaluateTokens tokens (Table.empty.insert "x" (.boolean true))
      (Table.empty.insert "f" last) { strict := true }
    report.result = .ok (.boolean false) ∧ Phrase ⟨true, false⟩ 0 (beforeEnd tokens) := by
  intro tokens last report
  have hresult : report.result = .ok (.boolean false) := rfl
  exact ⟨hresult, evaluateTokens_sentence tokens _ _ _ rfl hresult⟩

/-- **A missing comma is not noticed.** Strict evaluation accepts `f(true false)`, which is no
sentence where commas are needed. -/
theorem evaluateTokens_comma_missing :
    let tokens : List Token := [⟨.identifier "f", 0⟩, ⟨.openParen, 1⟩, ⟨.boolean true, 2⟩,
      ⟨.boolean false, 7⟩, ⟨.closeParen, 12⟩, ⟨.endOfInput, 13⟩]
    let first : Callable := .host fun vs ↦ vs.headD (.boolean false)
    (evaluateTokens tokens Table.empty (Table.empty.insert "f" first)
      { strict := true }).result = .ok (.boolean true) ∧
      ∀ c : Commas, c.optional = false → ¬Phrase c 0 (beforeEnd tokens) := by
  refine ⟨rfl, fun c hc h ↦ ?_⟩
  have hapart : Apart [⟨.identifier "f", 0⟩, ⟨.openParen, 1⟩, ⟨.boolean true, 2⟩,
      ⟨.boolean false, 7⟩, ⟨.closeParen, 12⟩] := h.apart hc
  simp [Apart, TokenKind.isLiteral] at hapart

end Formula
