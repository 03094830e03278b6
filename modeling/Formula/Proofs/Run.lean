import Formula.Function
import Formula.Error

/-!
# Runs

A run is what a computation with calls of host functions comes to, seen from outside: a result or
the error that stopped it, and the calls in order. Runs follow one another, and one that was stopped
keeps the calls that it had made.

## Beginnings

`Begins` compares a run with a longer one. The first may stop before the second does, and then
nothing is known of the rest; but where the first was stopped by an error the second was stopped by
the same one, at the same place. That is the form in which "whatever comes behind, this part was
evaluated first" is used everywhere: it is kept by whatever is appended (`begins_bind`), and it goes
through a common first part (`Begins.bind`).
-/

namespace Formula

/-- The outcome of a computation and the calls that it made, also when it was stopped. -/
structure Run (α : Type) where
  result : Except EvalError α
  calls : List Call

namespace Run

variable {α β γ δ : Type}

/-- The run that is stopped at once. -/
def fail (e : EvalError) : Run α := ⟨.error e, []⟩

instance : Monad Run where
  pure a := ⟨.ok a, []⟩
  bind r f := match r.result with
    | .ok a => ⟨(f a).result, r.calls ++ (f a).calls⟩
    | .error e => ⟨.error e, r.calls⟩

theorem pure_eq (a : α) : (pure a : Run α) = ⟨.ok a, []⟩ := rfl

@[simp] theorem bind_ok (a : α) (calls : List Call) (f : α → Run β) :
    (⟨.ok a, calls⟩ : Run α) >>= f = ⟨(f a).result, calls ++ (f a).calls⟩ := rfl

@[simp] theorem bind_error (e : EvalError) (calls : List Call) (f : α → Run β) :
    (⟨.error e, calls⟩ : Run α) >>= f = ⟨.error e, calls⟩ := rfl

@[simp] theorem fail_bind (e : EvalError) (f : α → Run β) : (fail e : Run α) >>= f = fail e := rfl

instance : LawfulMonad Run := by
  refine LawfulMonad.mk' Run ?_ ?_ ?_
  · rintro α ⟨_ | a, calls⟩
    · rfl
    · exact congrArg (Run.mk _) (List.append_nil calls)
  · intro α β a f
    rw [pure_eq, bind_ok, List.nil_append]
  · rintro α β γ ⟨_ | a, calls⟩ f g
    · rfl
    · simp only [bind_ok]
      obtain ⟨_ | b, calls'⟩ := f a
      · rfl
      · simp only [bind_ok, List.append_assoc]

/-- A run that followed another was not stopped by the first. -/
theorem bind_eq_ok {r : Run α} {f : α → Run β} {b : β} (h : (r >>= f).result = .ok b) :
    ∃ a calls, r = ⟨.ok a, calls⟩ ∧ (f a).result = .ok b := by
  obtain ⟨_ | a, calls⟩ := r
  · rw [bind_error] at h
    exact absurd h (by simp)
  · exact ⟨a, calls, rfl, h⟩

/-- The error that stopped two runs one behind the other stopped one of them. -/
theorem bind_eq_error {r : Run α} {f : α → Run β} {e : EvalError}
    (h : (r >>= f).result = .error e) :
    r.result = .error e ∨ ∃ a calls, r = ⟨.ok a, calls⟩ ∧ (f a).result = .error e := by
  obtain ⟨_ | a, calls⟩ := r
  · exact .inl (by simpa using h)
  · exact .inr ⟨a, calls, rfl, h⟩

/-! ## Beginnings -/

/-- The first run is the beginning of the second. -/
structure Begins (r : Run α) (r' : Run β) : Prop where
  prefix_calls : r.calls <+: r'.calls
  stopped : ∀ e, r.result = .error e → r'.result = .error e ∧ r'.calls = r.calls

/-- A run that begins with one that was stopped was stopped there. -/
theorem Begins.eq_of_error {e : EvalError} {calls : List Call} {r' : Run β}
    (h : Begins (⟨.error e, calls⟩ : Run α) r') : r' = ⟨.error e, calls⟩ := by
  obtain ⟨hresult, hcalls⟩ := h.stopped e rfl
  obtain ⟨result, calls'⟩ := r'
  simp only at hresult hcalls
  rw [hresult, hcalls]

@[refl] theorem Begins.refl (r : Run α) : Begins r r :=
  ⟨List.prefix_refl _, fun _ h ↦ ⟨h, rfl⟩⟩

theorem Begins.trans {r : Run α} {s : Run β} {t : Run γ} (h : Begins r s) (h' : Begins s t) :
    Begins r t := by
  refine ⟨h.prefix_calls.trans h'.prefix_calls, fun e he ↦ ?_⟩
  obtain ⟨hs, hcalls⟩ := h.stopped e he
  obtain ⟨ht, hcalls'⟩ := h'.stopped e hs
  exact ⟨ht, hcalls'.trans hcalls⟩

/-- Whatever is appended, a run stays the beginning. -/
theorem begins_bind (r : Run α) (f : α → Run β) : Begins r (r >>= f) := by
  obtain ⟨_ | a, calls⟩ := r
  · exact ⟨List.prefix_refl _, fun e h ↦ ⟨by simpa using h, rfl⟩⟩
  · exact ⟨List.prefix_append _ _, fun e h ↦ absurd h (by simp)⟩

/-- Behind a common first part, beginnings are compared by what follows. -/
theorem Begins.bind {r : Run α} {f : α → Run β} {g : α → Run γ} (h : ∀ a, Begins (f a) (g a)) :
    Begins (r >>= f) (r >>= g) := by
  obtain ⟨e | a, calls⟩ := r
  · exact ⟨List.prefix_refl _, fun e' he ↦ ⟨by simpa using he, rfl⟩⟩
  · refine ⟨List.prefix_append_right_inj calls |>.mpr (h a).prefix_calls, fun e he ↦ ?_⟩
    obtain ⟨hresult, hcalls⟩ := (h a).stopped e he
    exact ⟨hresult, congrArg (calls ++ ·) hcalls⟩

/-- What a run answers with does not matter to what it begins. -/
theorem Begins.map {r : Run α} {r' : Run β} (h : Begins r r') (f : α → γ) :
    Begins (r >>= fun a ↦ pure (f a)) r' := by
  obtain ⟨e | a, calls⟩ := r
  · exact ⟨h.prefix_calls, fun e' he ↦
      h.stopped e' (congrArg Except.error (Except.error.inj he))⟩
  · rw [bind_ok, pure_eq, List.append_nil]
    exact ⟨h.prefix_calls, fun e he ↦ absurd he (by simp)⟩

end Run

/-! ## Errors of form -/

/-- Whether an error is one of form, which no variable and no function can mend. -/
def EvalError.isStructural : EvalError → Bool
  | undefinedVariable _ _ | undefinedFunction _ _ => false
  | unexpectedToken _ _ | depthExceeded _ _ | unclosedParen _ | trailingTokens _ _ => true

namespace Run

variable {α β : Type}

/-- If anything stops a run, it is one of certain errors. -/
def StopsAt (P : EvalError → Prop) (r : Run α) : Prop := ∀ e, r.result = .error e → P e

section StopsAt

variable {P : EvalError → Prop}

theorem stopsAt_pure (a : α) : (pure a : Run α).StopsAt P := fun e h ↦ absurd h (by simp [pure_eq])

theorem stopsAt_fail {e : EvalError} (h : P e) : (fail e : Run α).StopsAt P := by
  intro e' he
  obtain rfl : e = e' := by simpa [fail] using he
  exact h

theorem StopsAt.bind {r : Run α} {f : α → Run β} (hr : r.StopsAt P)
    (hf : ∀ a, (f a).StopsAt P) : (r >>= f).StopsAt P := by
  intro e h
  rcases bind_eq_error h with h | ⟨a, calls, -, h⟩
  · exact hr e h
  · exact hf a e h

end StopsAt

/-- If anything stops a run, it is a name that stands for nothing. -/
def StopsAtNames (r : Run α) : Prop := ∀ e, r.result = .error e → e.isStructural = false

theorem stopsAtNames_pure (a : α) : (pure a : Run α).StopsAtNames := stopsAt_pure a

theorem StopsAtNames.bind {r : Run α} {f : α → Run β} (hr : r.StopsAtNames)
    (hf : ∀ a, (f a).StopsAtNames) : (r >>= f).StopsAtNames := StopsAt.bind hr hf

end Run

end Formula
