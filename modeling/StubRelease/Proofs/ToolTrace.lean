/-
# StubRelease.Proofs.ToolTrace -- the calls a run makes

Every run has a plan: the calls of a complete run, in order, which follow from the request, the root and
the configuration that stands when the run starts. Main statement: whatever the executor does to the
files and however its calls end, the calls a run makes are a beginning of its plan, a call that does not
succeed is the last one and its failure is the run's, and only a run that has made its whole plan
succeeds. A batch makes such a run for one version after the other and starts none after a failure.
-/
import StubRelease.BatchRun
import StubRelease.Proofs.Sequence

namespace StubRelease

open Sequence

variable {σ α β : Type}

/-! ## Plans -/

/-- The calls of a complete run: what is called, with which arguments, in which directory. -/
def Request.plan (r : Request) (c : Config) (root : Path) : List Call :=
  let script := (c.scriptDir / "gen_module.sh").text
  let convert := ["-f", "markdown", "-t", "rst", "-o", "README.rst", c.readme.text]
  match r.mode with
  | .release =>
    let cwd := root / ("tmp-" ++ r.version.text)
    [⟨c.shell, [script, r.sourceDir.text, r.blenderDir.text, r.version.sourceTag, r.version.text,
        "out"], cwd⟩,
      ⟨c.pandoc, convert, cwd⟩,
      ⟨c.python, ["setup.py", "sdist"], cwd⟩,
      ⟨c.python, ["setup.py", "bdist_wheel"], cwd⟩]
  | .develop =>
    let cwd := root / "release"
    [⟨c.shell, [script, r.sourceDir.text, r.blenderDir.text, r.version.sourceTag, "out"], cwd⟩,
      ⟨c.pandoc, convert, cwd⟩,
      ⟨c.python, ["setup.py", "develop"], cwd⟩]

/-- The failure of a call that did not succeed: the executor's own, or the exit code of the tool. -/
def ToolEvent.failure? (event : ToolEvent) : Option Failure :=
  match event.result with
  | .error failure => some failure
  | .ok status =>
    if status.isSuccess then none else some (.commandFailed event.call.program status.code?)

/-- How the calls of a run follow a plan, given how the run ended. -/
structure Follows (plan : List Call) (events : List ToolEvent) (result : Except Failure α) : Prop where
  in_order : events.map (·.call) <+: plan
  failed : ∀ before event after failure, events = before ++ event :: after →
    event.failure? = some failure → after = [] ∧ result = .error failure
  complete : ∀ a, result = .ok a → events.map (·.call) = plan

namespace Follows

variable {plan more : List Call} {events later : List ToolEvent}

/-- Nothing planned, nothing called. -/
theorem nil (result : Except Failure α) : Follows [] [] result where
  in_order := List.prefix_rfl
  failed := by
    intro before event after failure h
    cases before <;> simp at h
  complete := by
    intro a _
    rfl

/-- Of a plan whose first call was never made nothing has been called. -/
theorem unstarted (plan : List Call) (failure : Failure) :
    Follows plan [] (.error failure : Except Failure α) where
  in_order := List.nil_prefix
  failed := by
    intro before event after f h
    cases before <;> simp at h
  complete := by
    intro a h
    cases h

/-- After a plan that was completed the next one goes on. -/
theorem append {a : α} {result : Except Failure β} (h : Follows plan events (.ok a))
    (h' : Follows more later result) : Follows (plan ++ more) (events ++ later) result where
  in_order := by
    rw [List.map_append, h.complete a rfl]
    exact (List.prefix_append_right_inj plan).2 h'.in_order
  failed := by
    intro before event after failure hsplit hfail
    rcases List.append_eq_append_iff.1 hsplit with ⟨mid, rfl, hlater⟩ | ⟨mid, hevents, hmid⟩
    · exact h'.failed mid event after failure hlater hfail
    · cases mid with
      | nil =>
        refine h'.failed [] event after failure ?_ hfail
        simpa using hmid.symm
      | cons first rest =>
        -- the failing call would be one of a run that went on
        obtain ⟨rfl, rfl⟩ : event = first ∧ after = rest ++ later := by simpa using hmid
        have := (h.failed before event rest failure hevents hfail).2
        cases this
  complete := by
    intro b hb
    rw [List.map_append, h.complete a rfl, h'.complete b hb]

/-- What follows a plan so far and has failed follows every longer plan. -/
theorem extend {failure : Failure} (h : Follows plan events (.error failure : Except Failure α))
    (more : List Call) : Follows (plan ++ more) events (.error failure : Except Failure β) where
  in_order := h.in_order.trans (List.prefix_append plan more)
  failed := by
    intro before event after f hsplit hfail
    obtain ⟨hafter, hresult⟩ := h.failed before event after f hsplit hfail
    refine ⟨hafter, ?_⟩
    cases hresult
    rfl
  complete := by
    intro a ha
    cases ha

/-- One call that was planned; its failure, if it has one, is the run's. -/
theorem single (event : ToolEvent) {result : Except Failure α}
    (hfail : ∀ f, event.failure? = some f → result = .error f) : Follows [event.call] [event] result where
  in_order := List.prefix_rfl
  failed := by
    intro before other after f hsplit hf
    cases before with
    | nil =>
      obtain ⟨rfl, rfl⟩ : event = other ∧ [] = after := by simpa using hsplit
      exact ⟨rfl, hfail f hf⟩
    | cons _ _ => simp at hsplit
  complete := by
    intro a ha
    rfl

end Follows

/-! ## Steps that follow a plan -/

/-- A step of a run whose calls follow a plan, wherever it is taken. -/
def Traced (plan : List Call) (x : Run σ α) : Prop :=
  ∀ s, ∃ events, (x s).2.history = s.history ++ events ∧ Follows plan events (x s).1

namespace Traced

/-- A step that makes no call. -/
theorem silent {x : Run σ α} (h : ∀ s, (x s).2.history = s.history) : Traced [] x := by
  intro s
  exact ⟨[], by simp [h s], Follows.nil _⟩

/-- A step without a plan makes no call. -/
theorem history_eq {x : Run σ α} (h : Traced [] x) (s : Session σ) : (x s).2.history = s.history := by
  obtain ⟨events, hhistory, hfollows⟩ := h s
  have hnone : events = [] := List.map_eq_nil_iff.1 (List.prefix_nil.1 hfollows.in_order)
  rw [hhistory, hnone, List.append_nil]

theorem ofWork (step : Work α) : Traced (σ := σ) [] (Run.ofWork step) := by
  apply silent
  intro s
  rfl

theorem ofFiles (op : Files α) : Traced (σ := σ) [] (Run.ofFiles op) := ofWork (Work.ofFiles op)

theorem ofStore (question : Store → Except Failure α) : Traced (σ := σ) [] (Run.ofStore question) :=
  silent fun _ => rfl

theorem say (text : String) : Traced (σ := σ) [] (Run.say text) := by
  apply silent
  intro s
  rfl

theorem progress (quiet : Bool) (text : String) : Traced (σ := σ) [] (Run.progress quiet text) := by
  cases quiet
  · exact say text
  · exact silent fun _ => rfl

theorem pure (a : α) : Traced (σ := σ) [] (Pure.pure a) := by
  apply silent
  intro s
  rfl

/-- A call is recorded with its result. -/
theorem call_recorded (e : Executor σ) (c : Call) (s : Session σ) :
    ∃ event t, event.call = c ∧ t.history = s.history ++ [event] ∧
      Run.call e c s = (event.result, t) :=
  ⟨⟨c, _, _⟩, _, rfl, rfl, rfl⟩

/-- A checked call leaves what the call leaves, whether it has succeeded or not. -/
theorem callChecked_state (e : Executor σ) (c : Call) (s : Session σ) :
    (Run.callChecked e c s).2 = (Run.call e c s).2 := by
  rw [Run.callChecked, run_bind]
  cases hcall : Run.call e c s with
  | mk ended t =>
    cases ended with
    | error failure => rfl
    | ok status =>
      dsimp only
      split <;> rfl

/-- The one call of a checked call. -/
theorem callChecked (e : Executor σ) (c : Call) : Traced [c] (Run.callChecked e c) := by
  intro s
  obtain ⟨event, t, rfl, hhistory, hrun⟩ := call_recorded e c s
  cases hresult : event.result with
  | error failure =>
    rw [hresult] at hrun
    rw [Run.callChecked, bind_of_error _ hrun]
    refine ⟨[event], hhistory, Follows.single event ?_⟩
    intro f hf
    simpa [ToolEvent.failure?, hresult] using hf
  | ok status =>
    rw [hresult] at hrun
    rw [Run.callChecked, bind_of_ok _ hrun]
    cases hstatus : status.isSuccess with
    | true =>
      refine ⟨[event], hhistory, Follows.single event ?_⟩
      intro f hf
      simp [ToolEvent.failure?, hresult, hstatus] at hf
    | false =>
      refine ⟨[event], hhistory, Follows.single event ?_⟩
      intro f hf
      obtain rfl : Failure.commandFailed event.call.program status.code? = f := by
        simpa [ToolEvent.failure?, hresult, hstatus] using hf
      rfl

/-- The plan of a sequence is the plan of its parts, one after the other. -/
theorem bind {plan more : List Call} {x : Run σ α} {f : α → Run σ β} (hx : Traced plan x)
    (hf : ∀ a, Traced more (f a)) : Traced (plan ++ more) (x >>= f) := by
  intro s
  obtain ⟨events, hhistory, hfollows⟩ := hx s
  cases hrun : x s with
  | mk result t =>
    rw [hrun] at hhistory hfollows
    cases result with
    | error failure =>
      rw [bind_of_error f hrun]
      exact ⟨events, hhistory, hfollows.extend more⟩
    | ok a =>
      rw [bind_of_ok f hrun]
      obtain ⟨later, hlater, hfollows'⟩ := hf a t
      refine ⟨events ++ later, ?_, hfollows.append hfollows'⟩
      rw [hlater, hhistory, List.append_assoc]

/-- A call was made after a step that makes none: the step has succeeded. -/
theorem silent_bind {x : Run σ α} {f : α → Run σ β} {s t : Session σ} {result : Except Failure β}
    {event : ToolEvent} {later : List ToolEvent} (hx : Traced [] x) (h : (x >>= f) s = (result, t))
    (hhistory : t.history = s.history ++ event :: later) :
    ∃ a u, x s = (.ok a, u) ∧ u.history = s.history ∧ f a u = (result, t) := by
  have hsame := hx.history_eq s
  cases hrun : x s with
  | mk ended u =>
    rw [hrun] at hsame
    cases ended with
    | error failure =>
      rw [bind_of_error f hrun] at h
      obtain ⟨-, rfl⟩ := outcome_inj.1 h
      rw [hsame] at hhistory
      simp at hhistory
    | ok a =>
      rw [bind_of_ok f hrun] at h
      exact ⟨a, u, rfl, hsame, h⟩

/-- The first call after a state is the one that is made there; if another one follows, it has succeeded. -/
theorem call_bind {e : Executor σ} {c : Call} {f : Unit → Run σ β} {more : List Call} {s t : Session σ}
    {result : Except Failure β} {event : ToolEvent} {later : List ToolEvent} (hf : Traced more (f ()))
    (h : (Run.callChecked e c >>= f) s = (result, t)) (hhistory : t.history = s.history ++ event :: later) :
    event.call = c ∧ event.after = (e.run c s.tools s.store).store ∧
      (later = [] ∨ ∃ u, u.history = s.history ++ [event] ∧ u.store = event.after ∧ f () u = (result, t)) := by
  have hstate := callChecked_state e c s
  cases hrun : Run.callChecked e c s with
  | mk ended u =>
    rw [hrun] at hstate
    have hrecorded : u.history =
        s.history ++ [⟨c, (e.run c s.tools s.store).result, (e.run c s.tools s.store).store⟩] :=
      congrArg Session.history hstate
    have hstore : u.store = (e.run c s.tools s.store).store := congrArg Session.store hstate
    cases ended with
    | error failure =>
      rw [bind_of_error f hrun] at h
      obtain ⟨-, rfl⟩ := outcome_inj.1 h
      obtain ⟨rfl, rfl⟩ := List.cons.inj (List.append_cancel_left (hhistory.symm.trans hrecorded))
      exact ⟨rfl, rfl, .inl rfl⟩
    | ok _ =>
      rw [bind_of_ok f hrun] at h
      obtain ⟨events, hevents, -⟩ := hf u
      rw [h, hrecorded, List.append_assoc, List.singleton_append] at hevents
      obtain ⟨rfl, rfl⟩ := List.cons.inj (List.append_cancel_left (hhistory.symm.trans hevents))
      exact ⟨rfl, rfl, .inr ⟨u, hrecorded, hstore, h⟩⟩

end Traced

/-! ## Runs -/

theorem convertReadme_traced (e : Executor σ) (workDir : Path) (c : Config) :
    Traced [.readme c workDir] (Staging.convertReadme e workDir c) :=
  (Traced.ofWork _).bind fun _ => Traced.callChecked e _

namespace Job

variable (j : Job σ)

theorem runSetup_traced (workDir : Path) (commands : List SetupCommand) :
    Traced (commands.map fun command => .setup j.config command workDir)
      (j.runSetup workDir commands) := by
  induction commands with
  | nil => exact Traced.pure ()
  | cons command rest ih =>
    rw [Job.runSetup]
    exact (Traced.progress _ _).bind fun _ => (Traced.callChecked _ _).bind fun _ => ih

theorem archiveGenerated_traced (workDir : Path) : Traced [] (j.archiveGenerated workDir) :=
  (Traced.ofWork _).bind fun _ => Traced.ofFiles _

theorem generateAndStage_traced (mode : Mode) (workDir : Path) :
    Traced [.generator j.config mode j.layout.version j.sourceDir j.blenderDir workDir,
        .readme j.config workDir] (j.generateAndStage mode workDir) :=
  (Traced.progress _ _).bind fun _ =>
    (Traced.callChecked _ _).bind fun _ =>
      (Traced.progress _ _).bind fun _ =>
        (j.archiveGenerated_traced workDir).bind fun _ =>
          (Traced.ofWork _).bind fun _ =>
            (Traced.ofWork _).bind fun _ =>
              (Traced.progress _ _).bind fun _ =>
                (convertReadme_traced _ _ _).bind fun _ => Traced.pure _

theorem makeOutputDirs_traced : Traced [] j.makeOutputDirs :=
  (Traced.ofFiles _).bind fun _ => Traced.ofFiles _

theorem releaseIn_traced (workDir : Path) :
    Traced [.generator j.config .release j.layout.version j.sourceDir j.blenderDir workDir,
        .readme j.config workDir, .setup j.config .sdist workDir,
        .setup j.config .bdistWheel workDir] (j.releaseIn workDir) :=
  (j.generateAndStage_traced .release workDir).bind fun _ =>
    (j.runSetup_traced workDir _).bind fun _ =>
      (Traced.ofWork _).bind fun _ => Traced.pure _

theorem release_traced :
    Traced [.generator j.config .release j.layout.version j.sourceDir j.blenderDir j.layout.workDir,
        .readme j.config j.layout.workDir, .setup j.config .sdist j.layout.workDir,
        .setup j.config .bdistWheel j.layout.workDir] j.release :=
  j.makeOutputDirs_traced.bind fun _ =>
    (Traced.ofWork _).bind fun _ =>
      (Traced.ofFiles _).bind fun _ =>
        (j.releaseIn_traced _).bind fun ⟨_, dist⟩ =>
          (Traced.ofFiles _).bind fun _ =>
            match dist with
            | none => Traced.pure _
            | some _ => (Traced.progress _ _).bind fun _ => Traced.pure _

theorem develop_traced :
    Traced [.generator j.config .develop j.layout.version j.sourceDir j.blenderDir
          j.layout.releaseDir,
        .readme j.config j.layout.releaseDir, .setup j.config .develop j.layout.releaseDir]
      j.develop :=
  j.makeOutputDirs_traced.bind fun _ =>
    (j.generateAndStage_traced .develop _).bind fun _ =>
      (j.runSetup_traced _ _).bind fun _ =>
        (Traced.progress _ _).bind fun _ => Traced.pure _

end Job

/-- A run that has passed its checks follows the plan of its request. -/
theorem run_traced (e : Executor σ) (c : Config) (r : Request) (root : Path) (label : Label) :
    Traced (r.plan c root)
      (Job.run ⟨e, c, ⟨root, r.version, label⟩, r.sourceDir, r.blenderDir, r.quiet⟩ r.mode) := by
  obtain ⟨mode, version, sourceDir, blenderDir, quiet⟩ := r
  cases mode with
  | release => exact (Traced.progress _ _).bind fun _ => Job.release_traced _
  | develop => exact (Traced.progress _ _).bind fun _ => Job.develop_traced _

/-- How the calls of one run are tied to its request and to the store it started from. -/
def RunTrace (r : Request) (root : Path) (store : Store) (events : List ToolEvent)
    (result : Except Failure Outcome) : Prop :=
  match Config.load store root with
  | .ok c => Follows (r.plan c root) events result
  | .error _ => events = [] ∧ ∃ failure, result = .error failure

theorem package_trace (e : Executor σ) (r : Request) (root : Path) (label : Label) (s : Session σ) :
    ∃ events, (package e r root label s).2.history = s.history ++ events ∧
      RunTrace r root s.store events (package e r root label s).1 := by
  have hcheck := ofWork_eq (Job.requireNoWorkDir ⟨root, r.version, label⟩) s
  have hload := ofStore_eq (Config.load · root) s
  rw [Job.requireNoWorkDir, require_eq] at hcheck
  have hunstarted : ∀ failure, RunTrace r root s.store [] (.error failure) := by
    intro failure
    unfold RunTrace
    cases Config.load s.store root with
    | ok c => exact Follows.unstarted _ _
    | error _ => exact ⟨rfl, _, rfl⟩
  unfold package
  dsimp only [Job.requireNoWorkDir]
  split at hcheck
  · rw [bind_of_ok _ hcheck]
    cases hc : Config.load s.store root with
    | error failure =>
      rw [hc] at hload
      rw [bind_of_error _ hload]
      exact ⟨[], by simp, hunstarted failure⟩
    | ok c =>
      rw [hc] at hload
      rw [bind_of_ok _ hload]
      unfold RunTrace
      rw [hc]
      exact run_traced e c r root label s
  · rw [bind_of_error _ hcheck]
    exact ⟨[], by simp, hunstarted _⟩

/-! ## Batches -/

/-- How the calls of a batch are tied to its versions, from a session on. Every version that is not the
last one started has made its whole plan, and none is started after a failure. -/
inductive BatchTrace (e : Executor σ) (b : Batch) (root : Path) (label : Label) :
    List Version → Session σ → List ToolEvent → Option Failure → Prop
  | finished (s : Session σ) : BatchTrace e b root label [] s [] none
  | stopped {v : Version} {rest : List Version} {s t : Session σ} {own : List ToolEvent}
      {failure : Failure} :
      package e (b.request v) root label s = (.error failure, t) →
      t.history = s.history ++ own → RunTrace (b.request v) root s.store own (.error failure) →
      BatchTrace e b root label (v :: rest) s own (some failure)
  | continued {v : Version} {rest : List Version} {s t : Session σ} {own later : List ToolEvent}
      {outcome : Outcome} {stop : Option Failure} :
      package e (b.request v) root label s = (.ok outcome, t) →
      t.history = s.history ++ own → RunTrace (b.request v) root s.store own (.ok outcome) →
      BatchTrace e b root label rest t later stop →
      BatchTrace e b root label (v :: rest) s (own ++ later) stop

theorem releaseEach_trace (e : Executor σ) (b : Batch) (root : Path) (label : Label)
    (versions : List Version) (s : Session σ) :
    ∃ events stop, (releaseEach e b root label versions s).2.history = s.history ++ events ∧
      BatchTrace e b root label versions s events stop ∧
      (releaseEach e b root label versions s).1 = stop.elim (.ok ()) .error := by
  induction versions generalizing s with
  | nil => exact ⟨[], none, by simp [releaseEach, run_pure], .finished s, rfl⟩
  | cons v rest ih =>
    obtain ⟨own, hown, htrace⟩ := package_trace e (b.request v) root label s
    rw [releaseEach]
    cases hrun : package e (b.request v) root label s with
    | mk result t =>
      rw [hrun] at hown htrace
      cases result with
      | error failure =>
        rw [bind_of_error _ hrun]
        exact ⟨own, some failure, hown, .stopped hrun hown htrace, rfl⟩
      | ok outcome =>
        rw [bind_of_ok _ hrun]
        obtain ⟨later, stop, hlater, hbatch, hend⟩ := ih t
        refine ⟨own ++ later, stop, ?_, .continued hrun hown htrace hbatch, hend⟩
        rw [hlater, hown, List.append_assoc]

/-- What a batch does after its last version: it packs the outputs and says so. -/
def packOutputs (order : Listing.Order) (b : Batch) (root : Path) : Run σ (List Path) := do
  let tarballs ← if b.aggregate then Run.ofWork (Archive.aggregateOutputs order root) else pure []
  if b.quiet then pure ()
  else
    Run.say (Progress.packaged b.versions.length)
    sayTarballs tarballs
  pure tarballs

theorem sayTarballs_traced (tarballs : List Path) : Traced (σ := σ) [] (sayTarballs tarballs) := by
  induction tarballs with
  | nil => exact Traced.pure ()
  | cons tarball rest ih => exact (Traced.say _).bind fun _ => ih

theorem packOutputs_traced (order : Listing.Order) (b : Batch) (root : Path) :
    Traced (σ := σ) [] (packOutputs order b root) := by
  have hsaid : ∀ tarballs : List Path, Traced (σ := σ) [] (do
      if b.quiet then pure ()
      else
        Run.say (Progress.packaged b.versions.length)
        sayTarballs tarballs
      pure tarballs) := by
    intro tarballs
    cases b.quiet with
    | true => exact Traced.pure _
    | false =>
      exact (Traced.say _).bind fun _ => (sayTarballs_traced _).bind fun _ => Traced.pure _
  rw [packOutputs]
  cases b.aggregate with
  | true => exact (Traced.ofWork _).bind hsaid
  | false => exact (Traced.pure []).bind hsaid

theorem buildAll_trace (e : Executor σ) (b : Batch) (root : Path) (label : Label) (s : Session σ) :
    ∃ events stop, (buildAll e b root label s).2.history = s.history ++ events ∧
      BatchTrace e b root label b.versions s events stop ∧
      ∀ failure, stop = some failure → (buildAll e b root label s).1 = .error failure := by
  obtain ⟨events, stop, hhistory, htrace, hend⟩ := releaseEach_trace e b root label b.versions s
  have hsteps : buildAll e b root label =
      releaseEach e b root label b.versions >>= fun _ => packOutputs e.order b root := rfl
  rw [hsteps]
  refine ⟨events, stop, ?_, htrace, ?_⟩
  · cases hrun : releaseEach e b root label b.versions s with
    | mk result t =>
      rw [hrun] at hhistory
      cases result with
      | error failure =>
        rw [bind_of_error _ hrun]
        exact hhistory
      | ok _ =>
        rw [bind_of_ok _ hrun]
        obtain ⟨later, hlater, hnone⟩ := packOutputs_traced (σ := σ) e.order b root t
        have : later = [] := by simpa using hnone.in_order
        rw [hlater, this, List.append_nil, hhistory]
  · rintro failure rfl
    have hrun : releaseEach e b root label b.versions s =
        (.error failure, (releaseEach e b root label b.versions s).2) := Prod.ext hend rfl
    rw [bind_of_error _ hrun]

/-- The calls of a run are a beginning of the plan that its request has under the configuration at its
start; a call that does not succeed is the last one, and its failure is the run's; a run that succeeds
has made its whole plan. The calls of a batch are those of its runs, version after version, where every
version but the last one started has made its whole plan and none is started after a failure. -/
theorem tool_calls_follow_plans (e : Executor σ) (root : Path) (label : Label) (s : Session σ) :
    (∀ r : Request, ∃ events,
      (package e r root label s).2.history = s.history ++ events ∧
      RunTrace r root s.store events (package e r root label s).1) ∧
    (∀ b : Batch, ∃ events stop,
      (buildAll e b root label s).2.history = s.history ++ events ∧
      BatchTrace e b root label b.versions s events stop ∧
      ∀ failure, stop = some failure → (buildAll e b root label s).1 = .error failure) :=
  ⟨fun r => package_trace e r root label s, fun b => buildAll_trace e b root label s⟩

end StubRelease
