import Formula.Proofs.TwoPhases

/-!
# Short-circuiting

Passing over decided operands only removes work. Reading knows nothing of it, so a full and a short
evaluation read the same tree or fail at the same place, and all there is to compare is two ways of
evaluating that tree.

The comparison (`Run.Shortens`) is one-sided. Nothing is said where the full evaluation is stopped:
the name that stopped it may be one that the short one never looks up, and then the short one goes
on to whatever comes behind.
-/

namespace Formula

namespace Run

variable {α β γ : Type}

/-- If the full run is not stopped, neither is the short one; it has the same result and only some
of the calls. -/
structure Shortens (short full : Run α) : Prop where
  result_eq : ∀ a, full.result = .ok a → short.result = .ok a
  calls_sublist : ∀ a, full.result = .ok a → short.calls.Sublist full.calls

@[refl] theorem Shortens.refl (r : Run α) : Shortens r r :=
  ⟨fun _ h ↦ h, fun _ _ ↦ List.Sublist.refl _⟩

/-- A run that needs no calls shortens every one with the same result. -/
theorem shortens_pure {a : α} {full : Run α} (h : ∀ a', full.result = .ok a' → a' = a) :
    Shortens (pure a) full :=
  ⟨fun a' ha' ↦ by rw [h a' ha', pure_eq], fun _ _ ↦ List.nil_sublist _⟩

theorem Shortens.bind {short full : Run α} {f g : α → Run β} (h : Shortens short full)
    (hfg : ∀ a, Shortens (f a) (g a)) : Shortens (short >>= f) (full >>= g) := by
  have hsplit : ∀ b, (full >>= g).result = .ok b → ∃ a calls calls', full = ⟨.ok a, calls⟩ ∧
      short = ⟨.ok a, calls'⟩ ∧ calls'.Sublist calls ∧ (g a).result = .ok b := by
    intro b hb
    obtain ⟨a, calls, rfl, hg⟩ := bind_eq_ok hb
    obtain ⟨result, calls'⟩ := short
    obtain rfl : result = .ok a := h.result_eq a rfl
    exact ⟨a, calls, calls', rfl, rfl, h.calls_sublist a rfl, hg⟩
  refine ⟨fun b hb ↦ ?_, fun b hb ↦ ?_⟩
  · obtain ⟨a, calls, calls', rfl, rfl, -, hg⟩ := hsplit b hb
    exact (hfg a).result_eq b hg
  · obtain ⟨a, calls, calls', rfl, rfl, hcalls, hg⟩ := hsplit b hb
    exact hcalls.append ((hfg a).calls_sublist b hg)

/-- What the full run does first may be left out, if what follows does not need it. -/
theorem Shortens.leave_out {short : Run β} {full : Run α} {g : α → Run β}
    (h : ∀ a, Shortens short (g a)) : Shortens short (full >>= g) := by
  refine ⟨fun b hb ↦ ?_, fun b hb ↦ ?_⟩
  · obtain ⟨a, calls, rfl, hg⟩ := bind_eq_ok hb
    exact (h a).result_eq b hg
  · obtain ⟨a, calls, rfl, hg⟩ := bind_eq_ok hb
    exact ((h a).calls_sublist b hg).trans (List.sublist_append_right _ _)

end Run

/-! ## Trees -/

namespace Scope

/-- The scope in which both operands are always evaluated. -/
def full (ρ : Scope) : Scope := { ρ with shortCircuit := false }

/-- The scope in which decided operands are passed over. -/
def short (ρ : Scope) : Scope := { ρ with shortCircuit := true }

end Scope

namespace Tree

open Run (Shortens)

variable (ρ : Scope)

/-- A joint whose right operand is passed over if it is decided. -/
private theorem shortens_joined (j : Joint) (v : Value) (right : Tree)
    (hright : Shortens (right.evaluate ρ.short false) (right.evaluate ρ.full false)) :
    Shortens
      (right.evaluate ρ.short (false || ρ.short.shortCircuit && j.isDecidedBy v) >>= fun w ↦
        pure (j.apply v w))
      (right.evaluate ρ.full (false || ρ.full.shortCircuit && j.isDecidedBy v) >>= fun w ↦
        pure (j.apply v w)) := by
  have hfull : (false || ρ.full.shortCircuit && j.isDecidedBy v) = false := rfl
  have hshort : (false || ρ.short.shortCircuit && j.isDecidedBy v) = j.isDecidedBy v := rfl
  rw [hfull, hshort]
  cases hdecided : j.isDecidedBy v with
  | false => exact hright.bind fun w ↦ .refl _
  | true =>
    -- the placeholder need not be the value of the operand, only the joint does not see it
    obtain ⟨w, hw⟩ := evaluate_skipping ρ.short right
    rw [hw, pure_bind]
    refine Run.shortens_pure fun a ha ↦ ?_
    obtain ⟨w', calls, -, hw'⟩ := Run.bind_eq_ok ha
    obtain rfl : j.apply v w' = a := Except.ok.inj hw'
    exact Joint.apply_eq_of_isDecidedBy hdecided w' w

mutual

/-- **Passing over decided operands changes no value and adds no call.** -/
theorem shortens_evaluate : ∀ t : Tree,
    Shortens (t.evaluate ρ.short false) (t.evaluate ρ.full false)
  | literal v => .refl _
  | named name offset => .refl _
  | call name arguments offset => by
    rw [evaluate, evaluate]
    exact (shortens_evaluateAll arguments).bind fun vs ↦ .refl _
  | not operand => by
    rw [evaluate, evaluate]
    exact (shortens_evaluate operand).bind fun v ↦ .refl _
  | joined j left right => by
    rw [evaluate, evaluate]
    exact (shortens_evaluate left).bind fun v ↦
      shortens_joined ρ j v right (shortens_evaluate right)

theorem shortens_evaluateAll : ∀ ts : List Tree,
    Shortens (evaluateAll ρ.short false ts) (evaluateAll ρ.full false ts)
  | [] => .refl _
  | t :: ts => by
    rw [evaluateAll, evaluateAll]
    refine (shortens_evaluate t).bind fun v ↦ ?_
    exact (shortens_evaluateAll ts).bind fun vs ↦ .refl _

end

/-! ## Drafts -/

/-- Under which setting a draft leaves what comes behind it does not matter: in full nothing is
passed over, and in short something may be. -/
theorem shortens_enterAll (draft : List Frame) : ∀ skipping : Bool,
    Shortens (enterAll ρ.short skipping draft >>= fun _ ↦ pure ())
      (enterAll ρ.full false draft >>= fun _ ↦ pure ()) := by
  induction draft with
  | nil => exact fun skipping ↦ .refl _
  | cons f draft ih =>
    intro skipping
    rw [enterAll_cons, enterAll_cons]
    cases f with
    | after t =>
      simp only [Frame.enter, bind_assoc, pure_bind]
      cases skipping with
      | false => exact (shortens_evaluate ρ t).bind fun v ↦ ih false
      | true =>
        obtain ⟨v, hv⟩ := evaluate_skipping ρ.short t
        rw [hv, pure_bind]
        exact .leave_out fun v ↦ ih true
    | right j left =>
      have hfull : ∀ v, (false || ρ.full.shortCircuit && j.isDecidedBy v) = false := fun v ↦ rfl
      simp only [Frame.enter, bind_assoc, pure_bind, hfull]
      cases skipping with
      | false => exact (shortens_evaluate ρ left).bind fun v ↦ ih _
      | true =>
        -- the two values may differ, and with them what comes behind; `ih` holds for either
        obtain ⟨v, hv⟩ := evaluate_skipping ρ.short left
        rw [hv, pure_bind]
        exact .leave_out fun v ↦ ih _

/-- A failure of form that shows in full shows in short, behind some of the calls. -/
theorem run_failure_short {f : Failure} {e : EvalError}
    (hfull : (f.run ρ.full false : Run Value).result = .error e) (he : e.isStructural) :
    (f.run ρ.short false : Run Value).result = .error e ∧
      (f.run ρ.short false : Run Value).calls.Sublist (f.run ρ.full false : Run Value).calls := by
  rcases run_failure_cases (ρ := ρ.full) (β := Value) false f with
    ⟨skipping, calls, hdraft, hrun⟩ | ⟨e', calls, hname, hrun⟩
  · obtain rfl : f.error = e := by
      rw [hrun] at hfull
      exact Except.error.inj hfull
    have hshortens := shortens_enterAll ρ f.draft false
    rw [hdraft, Run.bind_ok] at hshortens
    obtain ⟨skipping', calls', hdraft', -⟩ := Run.bind_eq_ok (hshortens.result_eq () rfl)
    have hrun' : (f.run ρ.short false : Run Value) = ⟨.error f.error, calls' ++ []⟩ := by
      rw [Failure.run, hdraft', Run.bind_ok]
      rfl
    have hcalls := hshortens.calls_sublist () rfl
    rw [hdraft', Run.bind_ok] at hcalls
    refine ⟨by rw [hrun'], ?_⟩
    rw [hrun', hrun, List.append_nil]
    simpa [Run.pure_eq] using hcalls
  · rw [hrun] at hfull
    obtain rfl : e' = e := Except.error.inj hfull
    exact absurd he (by simp [hname])

end Tree

/-- **Short-circuiting only removes work.** Where the full evaluation has a value or fails in its
form, the short one does the same and stops at the same token, with only some of the calls. So they
can differ only where the full one stops at a name that stands for nothing. -/
theorem evaluateTokens_shortCircuit (tokens : List Token) (bindings : Table Value)
    (functions : Table Callable) (options : Options) :
    let full := evaluateTokens tokens bindings functions { options with shortCircuit := false }
    let short := evaluateTokens tokens bindings functions { options with shortCircuit := true }
    (∀ v, full.result = .ok v →
      short.result = .ok v ∧ short.unread = full.unread ∧ short.calls.Sublist full.calls) ∧
    (∀ e, full.result = .error e → e.isStructural →
      short.result = .error e ∧ short.unread = full.unread ∧ short.calls.Sublist full.calls) ∧
    (short.result ≠ full.result → ∃ e, full.result = .error e ∧ e.isStructural = false) := by
  intro full short
  let ρ : Scope := ⟨bindings, functions, options.shortCircuit⟩
  have hfull : full.Agrees ρ.full (Tree.read tokens options.strict options.maxDepth) :=
    agrees_evaluateTokens tokens bindings functions { options with shortCircuit := false }
  have hshort : short.Agrees ρ.short (Tree.read tokens options.strict options.maxDepth) :=
    agrees_evaluateTokens tokens bindings functions { options with shortCircuit := true }
  have hok : ∀ v, full.result = .ok v →
      short.result = .ok v ∧ short.unread = full.unread ∧ short.calls.Sublist full.calls := by
    intro v hv
    obtain ⟨p, hread, hunread⟩ := hfull.unread_of_ok v hv
    have hruns := hfull.run
    have hruns' := hshort.run
    rw [hread, outcomeRun] at hruns hruns'
    have hshortens := Tree.shortens_evaluate ρ p.value
    rw [← hruns, ← hruns'] at hshortens
    have hresult : short.result = .ok v := hshortens.result_eq v hv
    obtain ⟨p', hread', hunread'⟩ := hshort.unread_of_ok v hresult
    obtain rfl : p = p' := Except.ok.inj (hread.symm.trans hread')
    exact ⟨hresult, hunread'.trans hunread.symm, hshortens.calls_sublist v hv⟩
  have herror : ∀ e, full.result = .error e → e.isStructural →
      short.result = .error e ∧ short.unread = full.unread ∧ short.calls.Sublist full.calls := by
    intro e he hstructural
    obtain ⟨f, hread, hunread⟩ := hfull.unread_of_structural e he hstructural
    have hruns := hfull.run
    have hruns' := hshort.run
    rw [hread, outcomeRun] at hruns hruns'
    have hrun : (f.run ρ.full false : Run Value).result = .error e := hruns ▸ he
    obtain ⟨hresult, hcalls⟩ := Tree.run_failure_short ρ hrun hstructural
    rw [← hruns, ← hruns'] at hcalls
    rw [← hruns'] at hresult
    obtain ⟨f', hread', hunread'⟩ := hshort.unread_of_structural e hresult hstructural
    obtain rfl : f = f' := Except.error.inj (hread.symm.trans hread')
    exact ⟨hresult, hunread'.trans hunread.symm, hcalls⟩
  refine ⟨hok, herror, fun hne ↦ ?_⟩
  cases hresult : full.result with
  | ok v => exact absurd ((hok v hresult).1.trans hresult.symm) hne
  | error e =>
    cases hstructural : e.isStructural with
    | false => exact ⟨e, rfl, hstructural⟩
    | true => exact absurd ((herror e hresult hstructural).1.trans hresult.symm) hne

end Formula
