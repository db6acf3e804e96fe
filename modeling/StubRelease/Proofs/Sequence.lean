/-
# StubRelease.Proofs.Sequence -- steps one after the other

File operations, work on a store and runs of a session are all steps over a state: they end in a value or
in a cause, and leave a state either way. This module says what such a step does when it is made of
smaller ones, so that later proofs speak of the smaller ones only. A step that fails ends the sequence in
the state it leaves.
-/
import StubRelease.Tool.Session

namespace StubRelease.Sequence

variable {ε σ α β : Type}

/-- The cause of a result, if it has failed. -/
def errorOf : Except ε α → Option ε
  | .ok _ => none
  | .error e => some e

theorem eq_ok_of_toOption {x : Except ε α} {a : α} (h : x.toOption = some a) : x = .ok a := by
  cases x with
  | error _ => cases h
  | ok b =>
    cases h
    rfl

/-- Two outcomes of a step agree in how the step ended and in the state it left. -/
@[simp] theorem outcome_inj {r r' : Except ε α} {s s' : σ} :
    @Eq (Id (Except ε α × σ)) (r, s) (r', s') ↔ r = r' ∧ s = s' :=
  iff_of_eq (Prod.mk.injEq r s r' s')

theorem run_pure (a : α) (s : σ) : (pure a : ExceptT ε (StateM σ) α) s = (.ok a, s) := rfl

theorem run_throw (e : ε) (s : σ) : (throw e : ExceptT ε (StateM σ) α) s = (.error e, s) := rfl

theorem run_get (s : σ) : (get : ExceptT ε (StateM σ) σ) s = (.ok s, s) := rfl

theorem run_modify (f : σ → σ) (s : σ) :
    (modify f : ExceptT ε (StateM σ) PUnit) s = (.ok ⟨⟩, f s) := rfl

theorem run_bind (x : ExceptT ε (StateM σ) α) (f : α → ExceptT ε (StateM σ) β) (s : σ) :
    (x >>= f) s = match x s with
      | (.ok a, t) => f a t
      | (.error e, t) => (.error e, t) := by
  simp only [bind, ExceptT.bind, ExceptT.mk, StateT.bind, ExceptT.bindCont]
  obtain ⟨result, t⟩ := x s
  cases result <;> rfl

theorem run_tryCatch (x : ExceptT ε (StateM σ) α) (handle : ε → ExceptT ε (StateM σ) α) (s : σ) :
    tryCatch x handle s = match x s with
      | (.ok a, t) => (.ok a, t)
      | (.error e, t) => handle e t := by
  simp only [tryCatch, tryCatchThe, MonadExceptOf.tryCatch, ExceptT.tryCatch, ExceptT.mk, bind,
    StateT.bind]
  obtain ⟨result, t⟩ := x s
  cases result <;> rfl

/-- After a step that succeeds the rest goes on. -/
theorem bind_of_ok {x : ExceptT ε (StateM σ) α} (f : α → ExceptT ε (StateM σ) β) {s t : σ} {a : α}
    (h : x s = (.ok a, t)) : (x >>= f) s = f a t := by
  rw [run_bind, h]

/-- After a step that fails nothing else happens. -/
theorem bind_of_error {x : ExceptT ε (StateM σ) α} (f : α → ExceptT ε (StateM σ) β) {s t : σ} {e : ε}
    (h : x s = (.error e, t)) : (x >>= f) s = (.error e, t) := by
  rw [run_bind, h]

/-- A sequence succeeds by succeeding step by step. -/
theorem bind_eq_ok {x : ExceptT ε (StateM σ) α} {f : α → ExceptT ε (StateM σ) β} {s u : σ} {b : β} :
    (x >>= f) s = (.ok b, u) ↔ ∃ a t, x s = (.ok a, t) ∧ f a t = (.ok b, u) := by
  rw [run_bind]
  obtain ⟨result, t⟩ := x s
  cases result with
  | error e => simp
  | ok a =>
    constructor
    · intro h
      exact ⟨a, t, rfl, h⟩
    · rintro ⟨a', t', h, hrest⟩
      obtain ⟨ha, rfl⟩ := outcome_inj.1 h
      cases ha
      exact hrest

/-- Of a sequence it is true, however it ends, what is true of its steps and passes from one to the next. -/
theorem relates_bind {R : σ → σ → Prop} (htrans : ∀ {s t u}, R s t → R t u → R s u)
    {x : ExceptT ε (StateM σ) α} {f : α → ExceptT ε (StateM σ) β} {s : σ} (hx : R s (x s).2)
    (hf : ∀ a t, x s = (.ok a, t) → R s t → R t (f a t).2) : R s ((x >>= f) s).2 := by
  rw [run_bind]
  cases hdone : x s with
  | mk result t =>
    rw [hdone] at hx
    cases result with
    | error _ => exact hx
    | ok a => exact htrans hx (hf a t hdone hx)

/-! ## From one kind of step to the next -/

theorem require_eq (condition : Store → Bool) (otherwise : Failure) (s : Store) :
    Work.require condition otherwise s = (if condition s then .ok () else .error otherwise, s) := by
  rw [Work.require, run_bind, run_get]
  cases h : condition s <;> simp [h, run_pure, run_throw]

theorem ofFiles_eq (op : Files α) (s : Store) :
    Work.ofFiles op s = ((op s).1.mapError Failure.io, (op s).2) := by
  rw [Work.ofFiles]
  obtain ⟨result, t⟩ := op s
  cases result <;> rfl

theorem ofWork_eq (step : Work α) (s : Session σ) :
    Run.ofWork step s = ((step s.store).1, { s with store := (step s.store).2 }) := rfl

theorem require_eq_ok {condition : Store → Bool} {otherwise : Failure} {s t : Store} :
    Work.require condition otherwise s = (.ok (), t) ↔ condition s = true ∧ s = t := by
  rw [require_eq, outcome_inj]
  cases condition s <;> simp

theorem ofFiles_eq_ok {op : Files α} {s t : Store} {a : α} :
    Work.ofFiles op s = (.ok a, t) ↔ op s = (.ok a, t) := by
  rw [Work.ofFiles]
  obtain ⟨result, u⟩ := op s
  cases result <;> simp

/-- A step on the store makes no call. -/
theorem ofWork_eq_ok {step : Work α} {s t : Session σ} {a : α} (h : Run.ofWork step s = (.ok a, t)) :
    step s.store = (.ok a, t.store) ∧ t.history = s.history := by
  rw [ofWork_eq] at h
  obtain ⟨hresult, rfl⟩ := outcome_inj.1 h
  exact ⟨Prod.ext hresult rfl, rfl⟩

/-- After a step on the store the rest goes on in the store it left. -/
theorem ofWork_bind_of_ok {step : Work α} (f : α → Run σ β) {s : Session σ} {a : α} {t : Store}
    (h : step s.store = (.ok a, t)) : (Run.ofWork step >>= f) s = f a { s with store := t } :=
  bind_of_ok f (by rw [ofWork_eq, h])

theorem ofWork_bind_of_error {step : Work α} (f : α → Run σ β) {s : Session σ} {failure : Failure}
    {t : Store} (h : step s.store = (.error failure, t)) :
    (Run.ofWork step >>= f) s = (.error failure, { s with store := t }) :=
  bind_of_error f (by rw [ofWork_eq, h])

theorem ofStore_eq (question : Store → Except Failure α) (s : Session σ) :
    Run.ofStore question s = (question s.store, s) := rfl

end StubRelease.Sequence
