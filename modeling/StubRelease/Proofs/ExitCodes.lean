/-
# StubRelease.Proofs.ExitCodes -- how the end of a run is reported

A run that fails of its files or of its invocation exits with 1. A run that a call ended reports the call's
status: its exit byte if the process was not killed and the byte is not zero, and 1 otherwise, since a status
whose exit byte is zero is still not success. Main statement: the exit code of a run or of a batch is 0 exactly
if it succeeded and is otherwise told by the status of its last call, or is 1; what is written is the text of
the failure on a line (`run_is_reported`).
-/
import StubRelease.Launch
import StubRelease.Proofs.Checking

namespace StubRelease

open Sequence
open Failure (IsOfFiles)

variable {σ α : Type}

/-! ## What whole runs fail of -/

/-- A failure of the run itself, of its files or of its invocation, as opposed to one of a tool. -/
def Failure.IsOwn (f : Failure) : Prop := f.IsOfFiles ∨ f.isBadInvocation = true

theorem Failure.IsOwn.ne_commandFailed {f : Failure} (h : f.IsOwn) (program : String) (code : Option Int) :
    f ≠ .commandFailed program code := by
  rintro rfl
  obtain hfiles | hbad := h
  · exact hfiles
  · cases hbad

theorem Accounted.ofStore {e : Executor σ} {P : Failure → Prop} {question : Store → Except Failure α}
    (h : ∀ s f, question s = .error f → P f) : Accounted e P (Run.ofStore question : Run σ α) := by
  refine .silent (fun s f t hrun => ?_) (.silent fun _ => rfl)
  rw [ofStore_eq] at hrun
  exact h s.store f (outcome_inj.1 hrun).1

namespace Job

theorem begin_accounted (j : Job σ) : Accounted j.executor Failure.IsOwn j.begin :=
  .bind (j.makeOutputDirs_accounted.mono fun _ => .inl) fun _ =>
    .bind (.ofWork (.require _ (.inr rfl))) fun _ => (Accounted.ofFiles _).mono fun _ => .inl

theorem run_accounted (j : Job σ) (mode : Mode) : Accounted j.executor Failure.IsOwn (j.run mode) := by
  refine .bind (.progress _ _) fun _ => ?_
  cases mode with
  | release =>
    rw [release_eq_begin]
    exact .bind j.begin_accounted fun _ => j.buildAndPublish_accounted.mono fun _ => .inl
  | develop => exact j.develop_accounted.mono fun _ => .inl

end Job

/-- A run fails of itself or of its last call. -/
theorem package_accounted (e : Executor σ) (r : Request) (root : Path) (label : Label) :
    Accounted e Failure.IsOwn (package e r root label) :=
  .bind (.ofWork (.require _ (.inr rfl))) fun _ =>
    .bind (.ofStore fun _ _ hload => .inr (Config.isBadInvocation_of_load hload)) fun _ => Job.run_accounted _ _

theorem releaseEach_accounted (e : Executor σ) (b : Batch) (root : Path) (label : Label) (versions : List Version) :
    Accounted e Failure.IsOwn (releaseEach e b root label versions) := by
  induction versions with
  | nil => exact .pure ()
  | cons v rest ih => exact .bind (package_accounted e _ root label) fun _ => ih

/-- So does a batch. -/
theorem buildAll_accounted (e : Executor σ) (b : Batch) (root : Path) (label : Label) :
    Accounted e Failure.IsOwn (buildAll e b root label) :=
  .bind (releaseEach_accounted e b root label b.versions) fun _ =>
    .silent ((packOutputs_failsWith e.order b root).mono fun _ => .inl) (packOutputs_traced e.order b root)

/-! ## Calls that fail -/

/-- A call that fails is the last one of a run, and its failure is the run's. -/
theorem RunTrace.failed {r : Request} {root : Path} {store : Store} {events : List ToolEvent}
    {result : Except Failure Outcome} (h : RunTrace r root store events result) {before after : List ToolEvent}
    {event : ToolEvent} {f : Failure} (hsplit : events = before ++ event :: after) (hf : event.failure? = some f) :
    after = [] ∧ result = .error f := by
  unfold RunTrace at h
  split at h
  · exact h.failed before event after f hsplit hf
  · obtain ⟨hnone, -⟩ := h
    rw [hnone] at hsplit
    exact absurd hsplit.symm (by simp)

/-- A call that fails is the last one of a batch, too. -/
theorem BatchTrace.failed {e : Executor σ} {b : Batch} {root : Path} {label : Label} {versions : List Version}
    {s : Session σ} {events : List ToolEvent} {stop : Option Failure}
    (h : BatchTrace e b root label versions s events stop) {before after : List ToolEvent} {event : ToolEvent}
    {f : Failure} (hsplit : events = before ++ event :: after) (hf : event.failure? = some f) :
    after = [] ∧ stop = some f := by
  -- on the versions: the call is one of this version, or of those after it
  induction h generalizing before with
  | finished s => exact absurd hsplit.symm (by simp)
  | stopped hrun hhistory htrace =>
    obtain ⟨hafter, hresult⟩ := htrace.failed hsplit hf
    exact ⟨hafter, congrArg some (Except.error.inj hresult)⟩
  | @continued _ _ _ _ _ later _ _ hrun hhistory htrace hrest ih =>
    rcases List.append_eq_append_iff.1 hsplit with ⟨mid, rfl, hlater⟩ | ⟨mid, hown, hmid⟩
    · exact ih hlater
    · cases mid with
      | nil =>
        have hlater : later = [] ++ event :: after := by simpa using hmid.symm
        exact ih hlater
      | cons first others =>
        -- the failing call would be one of a version that was released
        obtain ⟨rfl, -⟩ : event = first ∧ after = others ++ _ := by simpa using hmid
        exact absurd (htrace.failed hown hf).2 (by simp)

/-! ## Reports -/

/-- The second byte of a status. -/
def WaitStatus.exitByte (w : WaitStatus) : Nat := w.raw.toNat / 256 % 256

/-- The exit code that stands for the status of a call that did not succeed: its exit byte if the process was
not killed and the byte is not zero, and 1 otherwise. -/
def WaitStatus.reported (w : WaitStatus) : Int :=
  if w.raw.toNat % 128 = 0 ∧ w.exitByte ≠ 0 then w.exitByte else 1

theorem WaitStatus.exitCode_commandFailed (w : WaitStatus) (program : String) :
    (Failure.commandFailed program w.code?).exitCode = w.reported := by
  unfold code? reported
  by_cases hkilled : w.raw.toNat % 128 = 0
  · rw [if_pos hkilled]
    show (if (w.exitByte : Int) = 0 then 1 else (w.exitByte : Int)) = _
    by_cases hzero : w.exitByte = 0
    · rw [if_pos (by rw [hzero]; rfl), if_neg (fun h => h.2 hzero)]
    · rw [if_neg (by omega), if_pos ⟨hkilled, hzero⟩]
  · rw [if_neg hkilled, if_neg (fun h => hkilled h.1)]
    rfl

theorem WaitStatus.reported_range (w : WaitStatus) : 1 ≤ w.reported ∧ w.reported ≤ 255 := by
  have hbyte : w.exitByte < 256 := Nat.mod_lt _ (by decide)
  unfold reported
  split <;> omega

theorem Failure.exitCode_eq_one {f : Failure} (h : ∀ program code, f ≠ .commandFailed program code) :
    f.exitCode = 1 := by
  cases f with
  | commandFailed program code => exact absurd rfl (h program code)
  | _ => rfl

/-- How the end of a run is reported, given its calls. -/
structure Reported (events : List ToolEvent) (result : Except Failure α) : Prop where
  /-- Exactly a success exits with 0. -/
  success : ∀ sink, (report result sink).1 = 0 ↔ ∃ a, result = .ok a
  /-- A call that ended with a status other than 0 ends the run, which reports the status. -/
  status : ∀ before event after w, events = before ++ event :: after → event.result = .ok w → w.raw ≠ 0 →
    after = [] ∧ result = .error (.commandFailed event.call.program w.code?) ∧
      ∀ sink, (report result sink).1 = w.reported
  /-- No other end of a run is told as the failure of a command. -/
  command : ∀ program code, result = .error (.commandFailed program code) →
    ∃ before event w, events = before ++ [event] ∧ event.result = .ok w ∧ w.raw ≠ 0 ∧
      program = event.call.program ∧ code = w.code?
  /-- Every other failure exits with 1. -/
  others : ∀ f sink, result = .error f → (∀ program code, f ≠ .commandFailed program code) →
    (report result sink).1 = 1
  /-- A failure exits with a code that a process can exit with. -/
  range : ∀ f sink, result = .error f → 1 ≤ (report result sink).1 ∧ (report result sink).1 ≤ 255
  /-- A failure is written with its text on a line. -/
  written : ∀ f sink, result = .error f → (report result sink).2 = sink.write (Bytes.ofString (f.message ++ "\n"))
  /-- Of a success nothing is written. -/
  silent : ∀ a sink, result = .ok a → (report result sink).2 = sink

/-- An executor whose own failures are never those of a command: that a command failed is told by its status. -/
def Executor.LeavesStatuses (e : Executor σ) : Prop :=
  ∀ c tools store f, (e.run c tools store).result = .error f → ∀ program code, f ≠ .commandFailed program code

/-- The failure of a command is that of the last call, which ended with a status other than 0. -/
theorem LastFails.of_commandFailed {e : Executor σ} (he : e.LeavesStatuses) {events : List ToolEvent}
    {program : String} {code : Option Int} (h : LastFails e events (.commandFailed program code)) :
    ∃ before event w, events = before ++ [event] ∧ event.result = .ok w ∧ w.raw ≠ 0 ∧
      program = event.call.program ∧ code = w.code? := by
  obtain ⟨before, event, tools, store, rfl, hresult, hfails⟩ := h
  rw [ToolEvent.failure?] at hfails
  cases hreply : event.result with
  | error failure =>
    rw [hreply] at hfails
    obtain rfl : failure = .commandFailed program code := Option.some.inj hfails
    exact absurd rfl (he _ _ _ _ (hresult.symm.trans hreply) program code)
  | ok w =>
    rw [hreply] at hfails
    simp only at hfails
    split at hfails
    · cases hfails
    · rename_i hstatus
      cases hfails
      refine ⟨before, event, w, rfl, hreply, fun hzero => hstatus ?_, rfl, rfl⟩
      rw [WaitStatus.isSuccess, hzero]
      rfl

/-- A call that ended with a status other than 0 failed of its command. -/
theorem ToolEvent.failure?_of_status {event : ToolEvent} {w : WaitStatus} (hstatus : event.result = .ok w)
    (hne : w.raw ≠ 0) : event.failure? = some (.commandFailed event.call.program w.code?) := by
  rw [failure?, hstatus]
  exact if_neg fun hsuccess => hne (eq_of_beq hsuccess)

/-- What accounts for its failures, and goes on only after calls that succeed, is reported. -/
theorem Accounted.reported {e : Executor σ} (he : e.LeavesStatuses) {x : Run σ α}
    (h : Accounted e Failure.IsOwn x) {s : Session σ} {events : List ToolEvent}
    (hhistory : (x s).2.history = s.history ++ events)
    (hfailed : ∀ before event after f, events = before ++ event :: after → event.failure? = some f →
      after = [] ∧ (x s).1 = .error f) : Reported events (x s).1 := by
  obtain ⟨own, hown, hcause⟩ := h s
  obtain rfl : own = events := List.append_cancel_left (hown.symm.trans hhistory)
  have hcommand : ∀ program code, (x s).1 = .error (.commandFailed program code) →
      ∃ before event w, own = before ++ [event] ∧ event.result = .ok w ∧ w.raw ≠ 0 ∧
        program = event.call.program ∧ code = w.code? := fun program code hresult =>
    ((hcause _ hresult).resolve_left fun hf => hf.ne_commandFailed program code rfl).of_commandFailed he
  have hrange : ∀ f, (x s).1 = .error f → 1 ≤ f.exitCode ∧ f.exitCode ≤ 255 := by
    intro f hf
    cases f with
    | commandFailed program code =>
      obtain ⟨-, event, w, -, -, -, rfl, rfl⟩ := hcommand program code hf
      rw [WaitStatus.exitCode_commandFailed]
      exact w.reported_range
    | _ =>
      show (1 : Int) ≤ 1 ∧ (1 : Int) ≤ 255
      decide
  constructor
  case success =>
    intro sink
    cases hresult : (x s).1 with
    | ok a => exact ⟨fun _ => ⟨a, rfl⟩, fun _ => rfl⟩
    | error f =>
      have := hrange f hresult
      constructor
      · intro hzero
        change f.exitCode = 0 at hzero
        omega
      · rintro ⟨a, ha⟩
        cases ha
  case status =>
    intro before event after w hsplit hstatus hne
    obtain ⟨hafter, hresult⟩ := hfailed before event after _ hsplit (ToolEvent.failure?_of_status hstatus hne)
    refine ⟨hafter, hresult, fun sink => ?_⟩
    rw [hresult]
    exact w.exitCode_commandFailed _
  case command => exact hcommand
  case others =>
    intro f sink hf hkind
    rw [hf]
    exact Failure.exitCode_eq_one hkind
  case range =>
    intro f sink hf
    have := hrange f hf
    rw [hf]
    exact this
  case written =>
    intro f sink hf
    rw [hf]
    rfl
  case silent =>
    intro a sink ha
    rw [ha]
    rfl

/-- Main statement: a run and a batch are reported by how they ended, whatever their calls do and however these
end. -/
theorem run_is_reported (e : Executor σ) (he : e.LeavesStatuses) (root : Path) (label : Label) (s : Session σ) :
    (∀ r : Request, ∃ events, (package e r root label s).2.history = s.history ++ events ∧
      Reported events (package e r root label s).1) ∧
    (∀ b : Batch, ∃ events, (buildAll e b root label s).2.history = s.history ++ events ∧
      Reported events (buildAll e b root label s).1) := by
  constructor
  · intro r
    obtain ⟨events, hhistory, htrace⟩ := package_trace e r root label s
    exact ⟨events, hhistory, (package_accounted e r root label).reported he hhistory
      fun _ _ _ _ hsplit hf => htrace.failed hsplit hf⟩
  · intro b
    obtain ⟨events, stop, hhistory, htrace, hstop⟩ := buildAll_trace e b root label s
    refine ⟨events, hhistory, (buildAll_accounted e b root label).reported he hhistory ?_⟩
    intro before event after f hsplit hf
    obtain ⟨hafter, hstopped⟩ := htrace.failed hsplit hf
    exact ⟨hafter, hstop f hstopped⟩

/-- Tools that do nothing and end with a status. -/
def Executor.ending (w : WaitStatus) : Executor Unit where
  run _ tools store := { result := .ok w, out := [], err := [], tools, store }

/-- The status 0x10000 is not success, but its exit byte is 0: the run exits with 1. -/
theorem silent_status_is_reported :
    (Executor.ending ⟨0x10000⟩).LeavesStatuses ∧
      (∃ events,
        (package (.ending ⟨0x10000⟩) smallRequest ⟨"/r"⟩ smallLabel smallSession).2.history = [] ++ events ∧
        Reported events (package (.ending ⟨0x10000⟩) smallRequest ⟨"/r"⟩ smallLabel smallSession).1) ∧
      report (package (.ending ⟨0x10000⟩) smallRequest ⟨"/r"⟩ smallLabel smallSession).1 .unlimited =
        (1, ⟨none, Bytes.ofString "bash failed with exit code 0\n"⟩) := by
  have he : (Executor.ending ⟨0x10000⟩).LeavesStatuses := by
    intro c tools store f h
    cases h
  exact ⟨he, (run_is_reported _ he ⟨"/r"⟩ smallLabel smallSession).1 smallRequest, by decide +kernel⟩

end StubRelease
