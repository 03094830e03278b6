import Formula.Evaluation
import Formula.Proofs.Run

/-!
# Expression trees

The evaluation of `Formula.Evaluation` builds no tree. Here is the tree that it leaves out, with the
meaning that the language gives to it: operands from the left to the right, both operands of `and`
and `or`, the arguments of a call before its name is looked up, and an end at the first name that
stands for nothing. Nothing in this module knows of tokens.

## Passing over

The right operand of a joint that the left one decides is passed over under short-circuiting: it
counts as if all its names and calls were `false`. Such an operand cannot fail and makes no call
(`evaluate_skipping`), so passing over is a matter of the tree alone.

## Drafts

When reading fails, what was read before was evaluated all the same. A `Frame` is a piece of it
that is complete, and a list of frames, the outermost first, is all there is to evaluate before the
failure shows. A frame says under which setting the next one is evaluated, because a failure can lie
in an operand that is passed over.
-/

namespace Formula

/-! ## Trees -/

/-- What joins two operands. -/
inductive Joint where
  | or
  | and
  | comparison (op : Comparison)
  | arithmetic (op : Arithmetic)
  deriving DecidableEq, Repr

namespace Joint

/-- Whether the left operand settles the result, whatever the right one is. -/
def isDecidedBy : Joint → Value → Bool
  | or, v => v.isTruthy
  | and, v => !v.isTruthy
  | comparison _, _ | arithmetic _, _ => false

/-- The value of two operands together. -/
def apply : Joint → Value → Value → Value
  | or, v, w => .boolean (v.isTruthy || w.isTruthy)
  | and, v, w => .boolean (v.isTruthy && w.isTruthy)
  | comparison op, v, w => .boolean (op.holds v w)
  | arithmetic op, v, w => .number (op.apply v.toNumber w.toNumber)

/-- A decided joint has the same value for every right operand, which is why it may be passed
over. -/
theorem apply_eq_of_isDecidedBy {j : Joint} {v : Value} (h : j.isDecidedBy v) (w w' : Value) :
    j.apply v w = j.apply v w' := by
  cases j <;> simp_all [isDecidedBy, apply]

end Joint

/-- An expression. Names keep the offset at which they stand, since errors report it. -/
inductive Tree where
  | literal (v : Value)
  | named (name : String) (offset : Nat)
  | call (name : String) (arguments : List Tree) (offset : Nat)
  | not (operand : Tree)
  | joined (j : Joint) (left right : Tree)

/-- What names stand for when a tree is evaluated, and whether decided operands are passed over. -/
structure Scope where
  bindings : Table Value
  functions : Table Callable
  shortCircuit : Bool

namespace Scope

/-- The value of a variable. -/
def lookUp (ρ : Scope) (skipping : Bool) (name : String) (offset : Nat) : Run Value :=
  if skipping then pure (.boolean false)
  else match ρ.bindings.get? name with
    | some v => pure v
    | none => .fail (.undefinedVariable name offset)

/-- The value of a call, which is recorded if it goes to the host. -/
def call (ρ : Scope) (skipping : Bool) (name : String) (arguments : List Value) (offset : Nat) :
    Run Value :=
  if skipping then pure (.boolean false)
  else match ρ.functions.get? name with
    | some f => ⟨.ok (f.apply arguments), if f.isHost then [⟨name, arguments⟩] else []⟩
    | none => .fail (.undefinedFunction name offset)

end Scope

/-! ## Evaluation -/

namespace Tree

mutual

/-- The value of a tree, in full or passed over. -/
def evaluate (ρ : Scope) (skipping : Bool) : Tree → Run Value
  | literal v => pure v
  | named name offset => ρ.lookUp skipping name offset
  | call name arguments offset => do
    let vs ← evaluateAll ρ skipping arguments
    ρ.call skipping name vs offset
  | not operand => do
    let v ← evaluate ρ skipping operand
    return .boolean (!v.isTruthy)
  | joined j left right => do
    let v ← evaluate ρ skipping left
    let w ← evaluate ρ (skipping || ρ.shortCircuit && j.isDecidedBy v) right
    return j.apply v w

/-- The values of trees, from the first to the last. -/
def evaluateAll (ρ : Scope) (skipping : Bool) : List Tree → Run (List Value)
  | [] => pure []
  | t :: ts => do
    let v ← evaluate ρ skipping t
    let vs ← evaluateAll ρ skipping ts
    return v :: vs

end

/-! ## Drafts -/

/-- A piece that was read in full before a failure. -/
inductive Frame where
  /-- A tree whose value goes into something that is still incomplete. -/
  | after (t : Tree)
  /-- The left operand of a joint in whose right operand the failure lies. -/
  | right (j : Joint) (left : Tree)

/-- Evaluates a frame and answers whether what follows it is passed over. -/
def Frame.enter (ρ : Scope) (skipping : Bool) : Frame → Run Bool
  | after t => do
    let _ ← t.evaluate ρ skipping
    return skipping
  | right j left => do
    let v ← left.evaluate ρ skipping
    return skipping || ρ.shortCircuit && j.isDecidedBy v

/-- Evaluates what was read before a failure. -/
def enterAll (ρ : Scope) (skipping : Bool) (draft : List Frame) : Run Bool :=
  draft.foldlM (Frame.enter ρ) skipping

/-! ## What stops an evaluation -/

section StopsAt

variable {ρ : Scope} {P : EvalError → Prop} {name : String} {n : Nat}

theorem stopsAt_lookUp (h : ¬ρ.bindings.contains name → P (.undefinedVariable name n))
    (skipping : Bool) : (ρ.lookUp skipping name n).StopsAt P := by
  unfold Scope.lookUp
  split
  · exact Run.stopsAt_pure _
  · split
    · exact Run.stopsAt_pure _
    · next hname => exact Run.stopsAt_fail (h (by simp [Table.contains, hname]))

theorem stopsAt_call (h : ¬ρ.functions.contains name → P (.undefinedFunction name n))
    (skipping : Bool) (vs : List Value) : (ρ.call skipping name vs n).StopsAt P := by
  unfold Scope.call
  split
  · exact Run.stopsAt_pure _
  · split
    · exact fun e he ↦ absurd he (by simp)
    · next hname => exact Run.stopsAt_fail (h (by simp [Table.contains, hname]))

theorem stopsAt_evaluateAll {ts : List Tree} (h : ∀ t ∈ ts, ∀ skipping,
    (t.evaluate ρ skipping).StopsAt P) (skipping : Bool) :
    (evaluateAll ρ skipping ts).StopsAt P := by
  induction ts with
  | nil => exact Run.stopsAt_pure []
  | cons t ts ih =>
    obtain ⟨ht, hts⟩ := List.forall_mem_cons.mp h
    rw [evaluateAll]
    exact (ht skipping).bind fun v ↦ (ih hts).bind fun vs ↦ Run.stopsAt_pure _

theorem stopsAt_enterAll {draft : List Frame} (h : ∀ f ∈ draft, ∀ skipping,
    (f.enter ρ skipping).StopsAt P) (skipping : Bool) : (enterAll ρ skipping draft).StopsAt P := by
  induction draft generalizing skipping with
  | nil => exact Run.stopsAt_pure skipping
  | cons f draft ih =>
    obtain ⟨hf, hdraft⟩ := List.forall_mem_cons.mp h
    rw [enterAll, List.foldlM_cons]
    exact (hf skipping).bind (ih hdraft)

end StopsAt

theorem stopsAtNames_lookUp (ρ : Scope) (skipping : Bool) (name : String) (offset : Nat) :
    (ρ.lookUp skipping name offset).StopsAtNames :=
  stopsAt_lookUp (P := fun e ↦ e.isStructural = false) (fun _ ↦ rfl) skipping

theorem stopsAtNames_call (ρ : Scope) (skipping : Bool) (name : String) (vs : List Value)
    (offset : Nat) : (ρ.call skipping name vs offset).StopsAtNames :=
  stopsAt_call (P := fun e ↦ e.isStructural = false) (fun _ ↦ rfl) skipping vs

mutual

/-- A tree can only fail at a name. -/
theorem stopsAtNames_evaluate (ρ : Scope) : ∀ (t : Tree) (skipping : Bool),
    (t.evaluate ρ skipping).StopsAtNames
  | literal v, skipping => Run.stopsAtNames_pure v
  | named name offset, skipping => stopsAtNames_lookUp ρ skipping name offset
  | call name arguments offset, skipping => by
    rw [evaluate]
    exact (stopsAtNames_evaluateAll ρ arguments skipping).bind fun vs ↦
      stopsAtNames_call ρ skipping name vs offset
  | not operand, skipping => by
    rw [evaluate]
    exact (stopsAtNames_evaluate ρ operand skipping).bind fun v ↦ Run.stopsAtNames_pure _
  | joined j left right, skipping => by
    rw [evaluate]
    refine (stopsAtNames_evaluate ρ left skipping).bind fun v ↦ ?_
    exact (stopsAtNames_evaluate ρ right _).bind fun w ↦ Run.stopsAtNames_pure _

theorem stopsAtNames_evaluateAll (ρ : Scope) : ∀ (ts : List Tree) (skipping : Bool),
    (evaluateAll ρ skipping ts).StopsAtNames
  | [], skipping => Run.stopsAtNames_pure []
  | t :: ts, skipping => by
    rw [evaluateAll]
    refine (stopsAtNames_evaluate ρ t skipping).bind fun v ↦ ?_
    exact (stopsAtNames_evaluateAll ρ ts skipping).bind fun vs ↦ Run.stopsAtNames_pure _

end

theorem stopsAtNames_enter (ρ : Scope) (skipping : Bool) (f : Frame) :
    (f.enter ρ skipping).StopsAtNames := by
  cases f with
  | after t => exact (stopsAtNames_evaluate ρ t skipping).bind fun _ ↦ Run.stopsAtNames_pure _
  | right j left =>
    exact (stopsAtNames_evaluate ρ left skipping).bind fun _ ↦ Run.stopsAtNames_pure _

/-- So can a draft. -/
theorem stopsAtNames_enterAll (ρ : Scope) (draft : List Frame) (skipping : Bool) :
    (enterAll ρ skipping draft).StopsAtNames :=
  stopsAt_enterAll (fun f _ skipping ↦ stopsAtNames_enter ρ skipping f) skipping

/-! ## Passing over -/

mutual

/-- **What is passed over cannot fail and calls nothing.** -/
theorem evaluate_skipping (ρ : Scope) : ∀ t : Tree, ∃ v, t.evaluate ρ true = pure v
  | literal v => ⟨v, rfl⟩
  | named name offset => ⟨.boolean false, rfl⟩
  | call name arguments offset => by
    obtain ⟨vs, hvs⟩ := evaluateAll_skipping ρ arguments
    exact ⟨.boolean false, by rw [evaluate, hvs, pure_bind]; rfl⟩
  | not operand => by
    obtain ⟨v, hv⟩ := evaluate_skipping ρ operand
    exact ⟨.boolean (!v.isTruthy), by rw [evaluate, hv, pure_bind]⟩
  | joined j left right => by
    obtain ⟨v, hv⟩ := evaluate_skipping ρ left
    obtain ⟨w, hw⟩ := evaluate_skipping ρ right
    exact ⟨j.apply v w, by rw [evaluate, hv, pure_bind, Bool.true_or, hw, pure_bind]⟩

theorem evaluateAll_skipping (ρ : Scope) : ∀ ts : List Tree,
    ∃ vs, evaluateAll ρ true ts = pure vs
  | [] => ⟨[], rfl⟩
  | t :: ts => by
    obtain ⟨v, hv⟩ := evaluate_skipping ρ t
    obtain ⟨vs, hvs⟩ := evaluateAll_skipping ρ ts
    exact ⟨v :: vs, by rw [evaluateAll, hv, pure_bind, hvs, pure_bind]⟩

end

end Tree

end Formula
