/-
# StubRelease.Proofs.Ends -- how a run ends

What a run does depends on the store it starts from, and not on what was printed or called before.
`Run.Ends` says from which store a run ends how, after which calls, and what is true of the store it
leaves. A run of several parts ends as its parts do (`Ends.bind`), and the first part that fails ends
it (`Ends.bind_error`).
-/
import StubRelease.Proofs.Sequence

namespace StubRelease.Run

open Sequence

variable {σ α β : Type}

/-- From every session over a store a run ends with a result and has made some calls, and something is
true of the store it leaves. -/
def Ends (x : Run σ α) (s : Store) (result : Except Failure α) (calls : List Call)
    (after : Store → Prop) : Prop :=
  ∀ u : Session σ, u.store = s → ∃ t, x u = (result, t) ∧
    t.history.map (·.call) = u.history.map (·.call) ++ calls ∧ after t.store

namespace Ends

variable {x : Run σ α} {f : α → Run σ β} {s t : Store} {a : α} {failure : Failure} {calls more : List Call}
  {mid after : Store → Prop}

theorem bind {result : Except Failure β} (hx : Ends x s (.ok a) calls mid)
    (hf : ∀ t, mid t → Ends (f a) t result more after) : Ends (x >>= f) s result (calls ++ more) after := by
  intro u hu
  obtain ⟨v, hrun, hcalls, hmid⟩ := hx u hu
  obtain ⟨w, hrest, hmore, hafter⟩ := hf v.store hmid v rfl
  refine ⟨w, ?_, ?_, hafter⟩
  · rw [bind_of_ok f hrun, hrest]
  · rw [hmore, hcalls, List.append_assoc]

/-- A part that makes no call comes before the rest. -/
theorem bind_silent {result : Except Failure β} (hx : Ends x s (.ok a) [] mid)
    (hf : ∀ t, mid t → Ends (f a) t result more after) : Ends (x >>= f) s result more after :=
  hx.bind hf

/-- After a part the rest makes no call. -/
theorem bind_last {result : Except Failure β} (hx : Ends x s (.ok a) calls mid)
    (hf : ∀ t, mid t → Ends (f a) t result [] after) : Ends (x >>= f) s result calls after := by
  have hdone := hx.bind hf
  rwa [List.append_nil] at hdone

theorem bind_error (hx : Ends x s (.error failure) calls after) :
    Ends (x >>= f) s (.error failure) calls after := by
  intro u hu
  obtain ⟨v, hrun, hcalls, hafter⟩ := hx u hu
  exact ⟨v, bind_of_error f hrun, hcalls, hafter⟩

theorem pure (hafter : after s) : Ends (σ := σ) (Pure.pure a) s (.ok a) [] after := by
  rintro u rfl
  exact ⟨u, rfl, by simp, hafter⟩

theorem imp {result : Except Failure α} (h : Ends x s result calls mid) (himp : ∀ t, mid t → after t) :
    Ends x s result calls after := by
  intro u hu
  obtain ⟨v, hrun, hcalls, hmid⟩ := h u hu
  exact ⟨v, hrun, hcalls, himp _ hmid⟩

theorem ofWork {step : Work α} {result : Except Failure α} (h : step s = (result, t)) (hafter : after t) :
    Ends (σ := σ) (Run.ofWork step) s result [] after := by
  rintro u rfl
  rw [ofWork_eq, h]
  exact ⟨_, rfl, by simp, hafter⟩

theorem ofFiles {op : Files α} (h : op s = (.ok a, t)) (hafter : after t) :
    Ends (σ := σ) (Run.ofFiles op) s (.ok a) [] after :=
  ofWork (ofFiles_eq_ok.2 h) hafter

theorem ofStore {question : Store → Except Failure α} (h : question s = .ok a) (hafter : after s) :
    Ends (σ := σ) (Run.ofStore question) s (.ok a) [] after := by
  rintro u rfl
  rw [ofStore_eq, h]
  exact ⟨u, rfl, by simp, hafter⟩

theorem progress (quiet : Bool) (text : String) (hafter : after s) :
    Ends (σ := σ) (Run.progress quiet text) s (.ok ()) [] after := by
  rintro u rfl
  cases quiet with
  | true => exact ⟨u, rfl, by simp, hafter⟩
  | false => exact ⟨_, rfl, by simp, hafter⟩

/-- A call that succeeds whatever was called before. -/
theorem callChecked {e : Executor σ} {c : Call}
    (h : ∀ tools, (e.run c tools s).result = .ok .success ∧ (e.run c tools s).store = t) (hafter : after t) :
    Ends (Run.callChecked e c) s (.ok ()) [c] after := by
  rintro u rfl
  obtain ⟨hresult, hstore⟩ := h u.tools
  have hcall : Run.call e c u = (.ok .success, (Run.call e c u).2) := Prod.ext hresult rfl
  refine ⟨(Run.call e c u).2, ?_, by simp [Run.call], ?_⟩
  · rw [Run.callChecked, bind_of_ok _ hcall]
    rfl
  · rw [Run.call, hstore]
    exact hafter

/-! ### What comes first -/

theorem ofWork_bind {step : Work α} {result : Except Failure β} (h : step s = (.ok a, t))
    (hf : Ends (f a) t result more after) : Ends (Run.ofWork step >>= f) s result more after := by
  have hdone : Ends (σ := σ) (Run.ofWork step) s (.ok a) [] (· = t) := ofWork h rfl
  refine hdone.bind_silent fun u hu => ?_
  subst hu
  exact hf

theorem ofFiles_bind {op : Files α} {result : Except Failure β} (h : op s = (.ok a, t))
    (hf : Ends (f a) t result more after) : Ends (Run.ofFiles op >>= f) s result more after :=
  ofWork_bind (ofFiles_eq_ok.2 h) hf

theorem progress_bind {f : Unit → Run σ β} {result : Except Failure β} (quiet : Bool) (text : String)
    (hf : Ends (f ()) s result more after) : Ends (Run.progress quiet text >>= f) s result more after := by
  have hdone : Ends (σ := σ) (Run.progress quiet text) s (.ok ()) [] (· = s) := progress quiet text rfl
  refine hdone.bind_silent fun u hu => ?_
  subst hu
  exact hf

theorem callChecked_bind {e : Executor σ} {c : Call} {f : Unit → Run σ β} {result : Except Failure β}
    (h : ∀ tools, (e.run c tools s).result = .ok .success ∧ (e.run c tools s).store = t)
    (hf : Ends (f ()) t result more after) :
    Ends (Run.callChecked e c >>= f) s result (c :: more) after := by
  have hdone : Ends (Run.callChecked e c) s (.ok ()) [c] (· = t) := callChecked h rfl
  refine hdone.bind fun u hu => ?_
  subst hu
  exact hf

end Ends

end StubRelease.Run
