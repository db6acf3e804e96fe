/-
# StubRelease.Proofs.Printing -- progress is only printed

A run never looks at what it has printed. Two sessions that have done the same work go on to do the same work,
whether they are quiet or not and whoever listens. Every stage of a run respects every relation between such
sessions that a line of progress respects too (`Job.run_respects`); three such relations make the main statement
(`progress_is_only_printed`): the work is the same, a quiet run prints nothing, and a sink that is full keeps the
beginning of what an unlimited one gets.
-/
import StubRelease.BatchRun
import StubRelease.Proofs.ToolTrace

namespace StubRelease

open Sequence

variable {σ α β : Type}

/-! ## Sessions of the same work -/

/-- Sessions that may differ in what was printed as progress, and where it goes. -/
structure Session.SameWork (s t : Session σ) : Prop where
  store : s.store = t.store
  tools : s.tools = t.tools
  history : s.history = t.history
  stdout : s.stdout = t.stdout

/-- A relation between sessions of the same work that more of the same work does not end. -/
structure Session.Lasting (R : Session σ → Session σ → Prop) : Prop where
  same : ∀ {s t}, R s t → s.SameWork t
  store : ∀ {s t}, R s t → ∀ u, R { s with store := u } { t with store := u }
  call : ∀ {s t}, R s t → ∀ (e : Executor σ) (c : Call), R (Run.call e c s).2 (Run.call e c t).2

theorem Session.SameWork.call {s t : Session σ} (h : s.SameWork t) (e : Executor σ) (c : Call) :
    (Run.call e c s).1 = (Run.call e c t).1 ∧ (Run.call e c s).2.SameWork (Run.call e c t).2 := by
  rw [Run.call, Run.call, h.store, h.tools]
  refine ⟨rfl, rfl, rfl, ?_, ?_⟩
  · show s.history ++ _ = t.history ++ _
    rw [h.history]
  · show s.stdout ++ _ = t.stdout ++ _
    rw [h.stdout]

namespace Run

/-- From related sessions two runs end alike and leave related sessions. -/
def Respects (R : Session σ → Session σ → Prop) (x y : Run σ α) : Prop :=
  ∀ s t, R s t → (x s).1 = (y t).1 ∧ R (x s).2 (y t).2

namespace Respects

variable {R : Session σ → Session σ → Prop} {x y : Run σ α} {f g : α → Run σ β}

theorem pure (a : α) : Respects R (Pure.pure a : Run σ α) (Pure.pure a) := by
  intro s t h
  exact ⟨rfl, h⟩

theorem throw (failure : Failure) : Respects R (MonadExcept.throw failure : Run σ α) (MonadExcept.throw failure) := by
  intro s t h
  exact ⟨rfl, h⟩

/-- Runs that end alike go on alike, or stop alike. -/
theorem bind (hx : Respects R x y) (hf : ∀ a, Respects R (f a) (g a)) : Respects R (x >>= f) (y >>= g) := by
  intro s t h
  obtain ⟨hresult, hafter⟩ := hx s t h
  rw [run_bind, run_bind]
  cases hs : x s with
  | mk result s' =>
    cases ht : y t with
    | mk result' t' =>
      rw [hs, ht] at hresult hafter
      obtain rfl : result = result' := hresult
      cases result with
      | error failure => exact ⟨rfl, hafter⟩
      | ok a => exact hf a s' t' hafter

section Work

variable (hR : Session.Lasting R)

include hR

theorem ofWork (step : Work α) : Respects R (Run.ofWork step) (Run.ofWork step) := by
  intro s t h
  rw [ofWork_eq, ofWork_eq, (hR.same h).store]
  exact ⟨rfl, hR.store h _⟩

theorem ofFiles (op : Files α) : Respects R (Run.ofFiles op) (Run.ofFiles op) := ofWork hR _

theorem ofStore (question : Store → Except Failure α) :
    Respects R (Run.ofStore question) (Run.ofStore question) := by
  intro s t h
  rw [ofStore_eq, ofStore_eq, (hR.same h).store]
  exact ⟨rfl, h⟩

theorem callChecked (e : Executor σ) (c : Call) : Respects R (Run.callChecked e c) (Run.callChecked e c) := by
  refine bind ?_ fun status => ?_
  · intro s t h
    exact ⟨((hR.same h).call e c).1, hR.call h e c⟩
  · cases status.isSuccess with
    | true => exact pure ()
    | false => exact throw _

theorem convertReadme (e : Executor σ) (w : Path) (c : Config) :
    Respects R (Staging.convertReadme e w c) (Staging.convertReadme e w c) :=
  (ofWork hR _).bind fun _ => callChecked hR e _

end Work

end Respects

end Run

open Run (Respects)

/-! ## Runs that are quiet or not -/

/-- A line that is printed unless a run is quiet comes before the others. -/
theorem unlessQuiet_bind (quiet : Bool) (text : String) (rest : Run σ Unit) :
    (if quiet then pure () else Run.say text >>= fun _ => rest) =
      (Run.progress quiet text >>= fun _ => if quiet then pure () else rest) := by
  cases quiet <;> rfl

section Stages

variable {R : Session σ → Session σ → Prop} (hR : Session.Lasting R) {quiet quiet' : Bool}
  (hsay : ∀ text, Respects R (Run.progress quiet text) (Run.progress quiet' text))

include hR hsay

namespace Job

variable {j k : Job σ} (hj : j.quiet = quiet) (hk : k = { j with quiet := quiet' })

include hj hk

omit hR in
theorem progress_respects (text : String) : Respects R (j.progress text) (k.progress text) := by
  subst hj hk
  exact hsay text

theorem generateAndStage_respects (mode : Mode) (w : Path) :
    Respects R (j.generateAndStage mode w) (k.generateAndStage mode w) := by
  have hprogress := progress_respects hsay hj hk
  subst hk
  refine (hprogress _).bind fun _ => (Respects.callChecked hR _ _).bind fun _ => (hprogress _).bind fun _ => ?_
  have harchive : Respects R (j.archiveGenerated w) ({ j with quiet := quiet' }.archiveGenerated w) :=
    (Respects.ofWork hR _).bind fun _ => Respects.ofFiles hR _
  refine harchive.bind fun _ => (Respects.ofWork hR _).bind fun _ => (Respects.ofWork hR _).bind fun _ => ?_
  exact (hprogress _).bind fun _ => (Respects.convertReadme hR _ w _).bind fun _ => Respects.pure _

theorem runSetup_respects (w : Path) (commands : List SetupCommand) :
    Respects R (j.runSetup w commands) (k.runSetup w commands) := by
  have hprogress := progress_respects hsay hj hk
  subst hk
  induction commands with
  | nil => exact Respects.pure ()
  | cons command rest ih =>
    exact (hprogress _).bind fun _ => (Respects.callChecked hR _ _).bind fun _ => ih

omit hsay hj in
theorem makeOutputDirs_respects : Respects R j.makeOutputDirs k.makeOutputDirs := by
  subst hk
  exact (Respects.ofFiles hR _).bind fun _ => Respects.ofFiles hR _

theorem release_respects : Respects R j.release k.release := by
  have hprogress := progress_respects hsay hj hk
  have hstage := generateAndStage_respects hR hsay hj hk .release
  have hsetup := runSetup_respects hR hsay hj hk
  have hdirs := makeOutputDirs_respects hR hk
  subst hk
  have hbuild (w : Path) : Respects R (j.releaseIn w) ({ j with quiet := quiet' }.releaseIn w) :=
    (hstage w).bind fun _ => (hsetup w _).bind fun _ => (Respects.ofWork hR _).bind fun _ => Respects.pure _
  refine hdirs.bind fun _ => (Respects.ofWork hR _).bind fun _ => (Respects.ofFiles hR _).bind fun _ => ?_
  refine (hbuild _).bind fun outcome => (Respects.ofFiles hR _).bind fun _ => ?_
  obtain ⟨archive, dist⟩ := outcome
  cases dist with
  | none => exact Respects.pure _
  | some dist => exact (hprogress _).bind fun _ => Respects.pure _

theorem develop_respects : Respects R j.develop k.develop := by
  have hprogress := progress_respects hsay hj hk
  have hstage := generateAndStage_respects hR hsay hj hk .develop
  have hsetup := runSetup_respects hR hsay hj hk
  have hdirs := makeOutputDirs_respects hR hk
  subst hk
  refine hdirs.bind fun _ => (hstage _).bind fun _ => (hsetup _ _).bind fun _ => ?_
  exact (hprogress _).bind fun _ => Respects.pure _

/-- Every stage of a run respects what work and progress respect. -/
theorem run_respects (mode : Mode) : Respects R (j.run mode) (k.run mode) := by
  have hprogress := progress_respects hsay hj hk (Progress.start mode j.layout.version)
  have hrelease := release_respects hR hsay hj hk
  have hdevelop := develop_respects hR hsay hj hk
  subst hk
  cases mode with
  | release => exact hprogress.bind fun _ => hrelease
  | develop => exact hprogress.bind fun _ => hdevelop

end Job

theorem package_respects (e : Executor σ) (r : Request) (root : Path) (label : Label) :
    Respects R (package e { r with quiet } root label) (package e { r with quiet := quiet' } root label) := by
  refine (Respects.ofWork hR _).bind fun _ => (Respects.ofStore hR _).bind fun config => ?_
  exact Job.run_respects hR hsay rfl rfl r.mode

theorem releaseEach_respects (e : Executor σ) (b : Batch) (root : Path) (label : Label) (versions : List Version) :
    Respects R (releaseEach e { b with quiet } root label versions)
      (releaseEach e { b with quiet := quiet' } root label versions) := by
  induction versions with
  | nil => exact Respects.pure ()
  | cons v rest ih => exact (package_respects hR hsay e (b.request v) root label).bind fun _ => ih

omit hR in
/-- What a batch says at its end is one line of progress after the other. -/
theorem sayTarballs_respects (tarballs : List Path) :
    Respects R (if quiet then pure () else sayTarballs tarballs)
      (if quiet' then pure () else sayTarballs tarballs) := by
  induction tarballs with
  | nil => cases quiet <;> cases quiet' <;> exact Respects.pure ()
  | cons tarball rest ih =>
    rw [sayTarballs, unlessQuiet_bind quiet, unlessQuiet_bind quiet']
    exact (hsay _).bind fun _ => ih

theorem packOutputs_respects (order : Listing.Order) (b : Batch) (root : Path) :
    Respects R (packOutputs order { b with quiet } root) (packOutputs order { b with quiet := quiet' } root) := by
  have hsaid (tarballs : List Path) : Respects R
      (do
        if quiet then pure ()
        else
          Run.say (Progress.packaged b.versions.length)
          sayTarballs tarballs
        pure tarballs)
      (do
        if quiet' then pure ()
        else
          Run.say (Progress.packaged b.versions.length)
          sayTarballs tarballs
        pure tarballs) := by
    have hrest := (sayTarballs_respects hsay tarballs).bind fun _ => Respects.pure tarballs
    have hlines := (hsay (Progress.packaged b.versions.length)).bind fun _ => hrest
    -- what follows a choice stands in both of its branches, so the two runs are compared branch by branch
    cases quiet <;> cases quiet' <;> exact hlines
  rw [packOutputs, packOutputs]
  cases b.aggregate with
  | true => exact (Respects.ofWork hR _).bind hsaid
  | false => exact (Respects.pure []).bind hsaid

theorem buildAll_respects (e : Executor σ) (b : Batch) (root : Path) (label : Label) :
    Respects R (buildAll e { b with quiet } root label) (buildAll e { b with quiet := quiet' } root label) :=
  (releaseEach_respects hR hsay e b root label b.versions).bind fun _ => packOutputs_respects hR hsay e.order b root

end Stages

/-! ## What printing can do -/

/-- The first sink takes `n` bytes and the second one all, and the first one has the beginning of what the second one
has. -/
structure Sink.Limits (n : Nat) (a b : Sink) : Prop where
  limit : a.limit = some n
  unlimited : b.limit = none
  kept : a.kept = b.kept.take n

theorem Sink.Limits.write {n : Nat} {a b : Sink} (h : a.Limits n b) (bs : Bytes) :
    (a.write bs).Limits n (b.write bs) where
  limit := (Sink.limit_write a bs).trans h.limit
  unlimited := (Sink.limit_write b bs).trans h.unlimited
  kept := Sink.kept_write_of_limit bs h.limit h.unlimited h.kept

/-- What is true of a run that may be quiet, whatever it does: it does the same work whether it is quiet or not and
whoever listens; a quiet one prints nothing; and a sink with a limit keeps the beginning of what one without gets. -/
structure PrintsOnly (run : Bool → Run σ α) : Prop where
  /-- The result, the calls with what they resulted in, and the tree. -/
  same : ∀ quiet quiet' s t, s.SameWork t →
    (run quiet s).1 = (run quiet' t).1 ∧ (run quiet s).2.SameWork (run quiet' t).2
  /-- Where the tools print to the same place, that is theirs. -/
  silent : ∀ s, s.shared = false → (run true s).2.stderr = s.stderr
  kept : ∀ quiet n s t, s.SameWork t → s.shared = t.shared → s.stderr.Limits n t.stderr →
    (run quiet s).2.stderr.Limits n (run quiet t).2.stderr

namespace Session

theorem lasting_sameWork : Lasting (SameWork (σ := σ)) where
  same h := h
  store h _ := ⟨rfl, h.tools, h.history, h.stdout⟩
  call h e c := (h.call e c).2

/-- The two are one session, where no tool prints and nothing has been printed to the sink yet. -/
def Unprinted (sink : Sink) (s t : Session σ) : Prop := s = t ∧ s.shared = false ∧ s.stderr = sink

theorem lasting_unprinted (sink : Sink) : Lasting (Unprinted (σ := σ) sink) where
  same := by
    rintro s _ ⟨rfl, -, -⟩
    exact ⟨rfl, rfl, rfl, rfl⟩
  store := by
    rintro s _ ⟨rfl, hshared, hsink⟩ u
    exact ⟨rfl, hshared, hsink⟩
  call := by
    rintro s _ ⟨rfl, hshared, hsink⟩ e c
    refine ⟨rfl, hshared, ?_⟩
    show (if s.shared then _ else s.stderr) = sink
    rw [hshared]
    exact hsink

/-- The first session prints to a sink with a limit, and the second one to a sink without. -/
structure Limited (n : Nat) (s t : Session σ) : Prop where
  same : s.SameWork t
  shared : s.shared = t.shared
  sinks : s.stderr.Limits n t.stderr

theorem Limited.write {n : Nat} {s t : Session σ} (h : Limited n s t) (bs : Bytes) :
    Limited n { s with stderr := s.stderr.write bs } { t with stderr := t.stderr.write bs } where
  same := ⟨h.same.store, h.same.tools, h.same.history, h.same.stdout⟩
  shared := h.shared
  sinks := h.sinks.write bs

theorem lasting_limited (n : Nat) : Lasting (Limited (σ := σ) n) where
  same h := h.same
  store h _ := ⟨⟨rfl, h.same.tools, h.same.history, h.same.stdout⟩, h.shared, h.sinks⟩
  call := by
    intro s t h e c
    refine ⟨(h.same.call e c).2, h.shared, ?_⟩
    show (if s.shared then s.stderr.write (e.run c s.tools s.store).err else s.stderr).Limits n
      (if t.shared then t.stderr.write (e.run c t.tools t.store).err else t.stderr)
    rw [h.shared, h.same.tools, h.same.store]
    cases t.shared with
    | true => exact h.sinks.write _
    | false => exact h.sinks

end Session

/-- What respects every relation that lasts and that progress respects only prints. -/
theorem PrintsOnly.of_respects {run : Bool → Run σ α}
    (h : ∀ (R : Session σ → Session σ → Prop) (quiet quiet' : Bool), Session.Lasting R →
      (∀ text, Respects R (Run.progress quiet text) (Run.progress quiet' text)) →
      Respects R (run quiet) (run quiet')) : PrintsOnly run where
  same := by
    intro quiet quiet' s t hst
    refine h _ quiet quiet' Session.lasting_sameWork (fun text => ?_) s t hst
    intro s t hst
    cases quiet <;> cases quiet' <;> exact ⟨rfl, hst.store, hst.tools, hst.history, hst.stdout⟩
  silent := by
    intro s hshared
    have hpure (text : String) : Respects (Session.Unprinted (σ := σ) s.stderr) (Run.progress true text)
        (Run.progress true text) :=
      Respects.pure ()
    exact (h _ true true (Session.lasting_unprinted _) hpure s s ⟨rfl, hshared, rfl⟩).2.2.2
  kept := by
    intro quiet n s t hst hshared hsinks
    refine (h _ quiet quiet (Session.lasting_limited n) (fun text => ?_) s t ⟨hst, hshared, hsinks⟩).2.sinks
    intro s t hst
    cases quiet with
    | true => exact ⟨rfl, hst⟩
    | false => exact ⟨rfl, hst.write _⟩

/-- Progress never influences a run or a batch: with the flag on or off, and whatever is done with what was
printed, the result, the calls and the tree are the same; a quiet one prints nothing; and where only `n` bytes are
taken, they are the first ones of what would be printed. -/
theorem progress_is_only_printed (e : Executor σ) (root : Path) (label : Label) :
    (∀ r : Request, PrintsOnly fun quiet => package e { r with quiet } root label) ∧
    (∀ b : Batch, PrintsOnly fun quiet => buildAll e { b with quiet } root label) := by
  constructor
  · intro r
    apply PrintsOnly.of_respects
    intro R quiet quiet' hR hsay
    exact package_respects hR hsay e r root label
  · intro b
    apply PrintsOnly.of_respects
    intro R quiet quiet' hR hsay
    exact buildAll_respects hR hsay e b root label

end StubRelease
