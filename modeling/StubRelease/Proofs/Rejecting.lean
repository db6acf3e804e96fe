/-
# StubRelease.Proofs.Rejecting -- how a run is rejected

A rejection is a failure that stands for a bad invocation. Nothing a run works with rejects it but its two
checks: the probe of the working directory's place, made once before the run and once again before a release
makes the directory, and the reading of the configuration (`package_rejects`). What is rejected early has
done nothing; the late probe comes after directories were made, and is of use only when these have changed
what stands at the place. The probes follow links, so a link that leads nowhere passes them both.
-/
import StubRelease.Proofs.Causes
import StubRelease.Proofs.Failing
import StubRelease.Proofs.Tree.Gains

namespace StubRelease

open Sequence

variable {σ α : Type}

/-! ## Failures that reject nothing -/

open Failure (IsOfFiles)

/-- An executor whose own failures reject no invocation. -/
def Executor.NeverRejects (e : Executor σ) : Prop :=
  ∀ c tools store f, (e.run c tools store).result = .error f → f.isBadInvocation = false

theorem Executor.neverRejects_putting (tree : Node) : (Executor.putting tree).NeverRejects := by
  intro c tools store f h
  cases h

theorem LastFails.isBadInvocation_eq {e : Executor σ} (he : e.NeverRejects) {events : List ToolEvent} {f : Failure}
    (h : LastFails e events f) : f.isBadInvocation = false := by
  obtain ⟨before, event, tools, store, -, hresult, hfails⟩ := h
  rw [ToolEvent.failure?] at hfails
  cases hreply : event.result with
  | error failure =>
    rw [hreply] at hfails
    obtain rfl : failure = f := Option.some.inj hfails
    exact he _ _ _ _ (hresult.symm.trans hreply)
  | ok status =>
    rw [hreply] at hfails
    simp only at hfails
    split at hfails
    · cases hfails
    · cases hfails
      rfl

/-- What fails of the files or of a call rejects nothing. -/
theorem Accounted.isBadInvocation_eq {e : Executor σ} (he : e.NeverRejects) {x : Run σ α}
    (h : Accounted e IsOfFiles x) {s t : Session σ} {f : Failure} (hrun : x s = (.error f, t)) :
    f.isBadInvocation = false := by
  obtain ⟨events, -, hcause⟩ := h s
  obtain hfiles | hlast := hcause f (by rw [hrun])
  · exact hfiles.isBadInvocation_eq
  · exact hlast.isBadInvocation_eq he

/-! ## Runs -/

namespace Job

variable {j : Job σ}

theorem release_eq_begin (j : Job σ) : j.release = (do
    j.begin
    j.buildAndPublish) := by
  simp only [release, releaseIn, begin, build, publish, buildAndPublish, bind_assoc, pure_bind]

variable {s t : Session σ}

/-- A release is rejected before it has its working directory only where something is found in its place
once the output directories are made. -/
theorem begin_rejects {f : Failure} (h : j.begin s = (.error f, t)) (hf : f.isBadInvocation = true) :
    f = .workDirExists j.layout.workDir ∧ j.layout.MakesOutputDirs s.store t.store ∧
      t.store.present j.layout.workDir.bytes = true ∧ t.history = s.history := by
  have hhistory := Traced.history_eq j.makeOutputDirs_traced s
  cases hdirs : j.makeOutputDirs s with
  | mk result u =>
    rw [hdirs] at hhistory
    cases result with
    | error failure =>
      rw [begin, bind_of_error _ hdirs] at h
      cases (outcome_inj.1 h).1
      exact absurd hf (by simp [(j.makeOutputDirs_failsWith s f u hdirs).isBadInvocation_eq])
    | ok _ =>
      rw [begin, bind_of_ok _ hdirs] at h
      cases hfree : u.store.present j.layout.workDir.bytes with
      | true =>
        rw [ofWork_bind_of_error _ (requireNoWorkDir_of_present hfree)] at h
        obtain ⟨hfailure, rfl⟩ := outcome_inj.1 h
        exact ⟨(Except.error.inj hfailure).symm, makeOutputDirs_makes hdirs, hfree, hhistory⟩
      | false =>
        rw [ofWork_bind_of_ok _ (requireNoWorkDir_of_free hfree)] at h
        exact absurd hf (by simp [(FailsWith.ofWork (.ofFiles _) _ f t h).isBadInvocation_eq])

theorem makeOutputDirs_gains (j : Job σ) (s : Session σ) : s.store.Gains (j.makeOutputDirs s).2.store := by
  refine relates_bind (R := fun u v : Session σ => u.store.Gains v.store) .trans ?_ fun _ t _ _ => ?_
  · rw [Run.ofFiles_store]
    exact Files.makeDirs_gains _
  · rw [Run.ofFiles_store]
    exact Files.makeDirs_gains _

/-- Where an entry stands in the place of its working directory, a release makes directories at most. -/
theorem begin_of_hasEntry (h : s.store.hasEntry j.layout.workDir.bytes = true) :
    ∃ failure t, j.begin s = (.error failure, t) ∧ t.history = s.history ∧ s.store.Gains t.store := by
  have hhistory := Traced.history_eq j.makeOutputDirs_traced s
  have hgains := j.makeOutputDirs_gains s
  cases hdirs : j.makeOutputDirs s with
  | mk result u =>
    rw [hdirs] at hhistory hgains
    cases result with
    | error failure => exact ⟨failure, u, bind_of_error _ hdirs, hhistory, hgains⟩
    | ok _ =>
      rw [begin, bind_of_ok _ hdirs]
      cases hfree : u.store.present j.layout.workDir.bytes with
      | true =>
        exact ⟨_, _, ofWork_bind_of_error _ (requireNoWorkDir_of_present hfree), hhistory, hgains⟩
      | false =>
        obtain ⟨fault, hfault⟩ :=
          Files.makeDir_of_hasEntry (p := j.layout.root) (Layout.isName_work j.layout.version) (hgains.hasEntry h)
        rw [ofWork_bind_of_ok _ (requireNoWorkDir_of_free hfree), Run.ofFiles, ofWork_eq, ofFiles_eq,
          Layout.workDir, hfault]
        exact ⟨_, _, rfl, hhistory, hgains⟩

end Job

/-! ## The checks of a run -/

section Checks

variable (e : Executor σ) (r : Request) (root : Path) (label : Label) {s t : Session σ}

/-- What the probe of the working directory's place finds is left alone, and so is everything else. -/
theorem package_of_present (h : s.store.present (root / ("tmp-" ++ r.version.text)).bytes = true) :
    package e r root label s = (.error (.workDirExists (root / ("tmp-" ++ r.version.text))), s) :=
  ofWork_bind_of_error _ (Job.requireNoWorkDir_of_present (l := ⟨root, r.version, label⟩) h)

variable (hfree : s.store.present (root / ("tmp-" ++ r.version.text)).bytes = false)

include hfree

/-- A configuration that cannot be read is the second thing to be found. -/
theorem package_of_load_error {f : Failure} (h : Config.load s.store root = .error f) :
    package e r root label s = (.error f, s) := by
  rw [package, ofWork_bind_of_ok _ (Job.requireNoWorkDir_of_free (l := ⟨root, r.version, label⟩) hfree)]
  exact bind_of_error _ (by rw [ofStore_eq, h])

/-- A run that has passed its checks starts to work. -/
theorem package_of_load_ok {c : Config} (h : Config.load s.store root = .ok c) :
    package e r root label s =
      Job.run ⟨e, c, ⟨root, r.version, label⟩, r.sourceDir, r.blenderDir, r.quiet⟩ r.mode s := by
  rw [package, ofWork_bind_of_ok _ (Job.requireNoWorkDir_of_free (l := ⟨root, r.version, label⟩) hfree)]
  exact bind_of_ok _ (by rw [ofStore_eq, h])

/-- A release that has passed its checks tells that it starts, and begins. -/
theorem package_of_release {c : Config} (h : Config.load s.store root = .ok c) (hmode : r.mode = .release) :
    ∃ u : Session σ, u.store = s.store ∧ u.history = s.history ∧ package e r root label s =
      (do
        Job.begin ⟨e, c, ⟨root, r.version, label⟩, r.sourceDir, r.blenderDir, r.quiet⟩
        Job.buildAndPublish ⟨e, c, ⟨root, r.version, label⟩, r.sourceDir, r.blenderDir, r.quiet⟩) u := by
  obtain ⟨u, hsay, hstore, hhistory⟩ := Run.progress_cases r.quiet (Progress.start .release r.version) s
  refine ⟨u, hstore, hhistory, ?_⟩
  rw [package_of_load_ok e r root label hfree h, hmode, Job.run, Job.progress, bind_of_ok _ hsay, Job.release_eq_begin]

end Checks

/-- How a run of one version is rejected: at once, and then it has done nothing, or late, when it has made the
output directories. -/
inductive Rejected (r : Request) (root : Path) (label : Label) (s : Session σ) : Failure → Session σ → Prop
  | workDir (stands : s.store.present (root / ("tmp-" ++ r.version.text)).bytes = true) :
    Rejected r root label s (.workDirExists (root / ("tmp-" ++ r.version.text))) s
  | config {f : Failure} (free : s.store.present (root / ("tmp-" ++ r.version.text)).bytes = false)
    (load : Config.load s.store root = .error f) : Rejected r root label s f s
  | late {t : Session σ} (mode : r.mode = .release)
    (free : s.store.present (root / ("tmp-" ++ r.version.text)).bytes = false) (history : t.history = s.history)
    (makes : Layout.MakesOutputDirs ⟨root, r.version, label⟩ s.store t.store)
    (stands : t.store.present (root / ("tmp-" ++ r.version.text)).bytes = true) :
    Rejected r root label s (.workDirExists (root / ("tmp-" ++ r.version.text))) t

namespace Rejected

variable {r : Request} {root : Path} {label : Label} {s t : Session σ} {f : Failure}

/-- No tool was called. -/
theorem history (h : Rejected r root label s f t) : t.history = s.history := by
  cases h with
  | workDir stands => rfl
  | config free load => rfl
  | late mode free history makes stands => exact history

/-- Directories were made at most. -/
theorem gains (h : Rejected r root label s f t) : s.store.Gains t.store := by
  cases h with
  | workDir stands => exact .refl _
  | config free load => exact .refl _
  | late mode free history makes stands =>
    obtain ⟨u, hraw, hrelease⟩ := makes
    have hfirst := Files.makeDirs_gains (s := s.store) (Layout.rawModulesDir ⟨root, r.version, label⟩).bytes
    have hsecond := Files.makeDirs_gains (s := u) (Layout.releaseDir ⟨root, r.version, label⟩).bytes
    rw [hraw] at hfirst
    rw [hrelease] at hsecond
    exact hfirst.trans hsecond

end Rejected

/-- Nothing but its checks rejects a run. -/
theorem package_rejects {e : Executor σ} (he : e.NeverRejects) {r : Request} {root : Path} {label : Label}
    {s t : Session σ} {f : Failure} (h : package e r root label s = (.error f, t)) (hf : f.isBadInvocation = true) :
    Rejected r root label s f t := by
  cases hfree : s.store.present (root / ("tmp-" ++ r.version.text)).bytes with
  | true =>
    rw [package_of_present e r root label hfree] at h
    obtain ⟨hfailure, rfl⟩ := outcome_inj.1 h
    cases hfailure
    exact .workDir hfree
  | false =>
    cases hload : Config.load s.store root with
    | error failure =>
      rw [package_of_load_error e r root label hfree hload] at h
      obtain ⟨hfailure, rfl⟩ := outcome_inj.1 h
      cases hfailure
      exact .config hfree hload
    | ok c =>
      cases hmode : r.mode with
      | develop =>
        obtain ⟨u, hsay, -⟩ := Run.progress_cases r.quiet (Progress.start .develop r.version) s
        rw [package_of_load_ok e r root label hfree hload, hmode, Job.run, Job.progress, bind_of_ok _ hsay] at h
        exact absurd hf (by simp [(Job.develop_accounted _).isBadInvocation_eq he h])
      | release =>
        obtain ⟨u, hstore, hhistory, hbegins⟩ := package_of_release e r root label hfree hload hmode
        -- once the working directory is made nothing is rejected any more
        rw [hbegins, run_bind] at h
        split at h
        · exact absurd hf (by simp [(Job.buildAndPublish_accounted _).isBadInvocation_eq he h])
        · rename_i hbegin
          obtain ⟨hfailure, rfl⟩ := outcome_inj.1 h
          cases hfailure
          obtain ⟨rfl, hmakes, hstands, hsame⟩ := Job.begin_rejects hbegin hf
          rw [hstore] at hmakes
          exact .late hmode hfree (hsame.trans hhistory) hmakes hstands

/-! ## An entry in the place of the working directory -/

/-- Whatever stands at the working directory's path stops the run, at once and with nothing done, unless it is
a link that leads nowhere. A release is stopped by such a link, too, before it calls a tool: it may have made
directories then, and has done nothing else. -/
theorem entry_stops_run (e : Executor σ) (r : Request) (root : Path) (label : Label) (s : Session σ) {node : Node}
    (hnode : s.store.nodeAt false (root / ("tmp-" ++ r.version.text)).bytes = .ok node) :
    (node.isLink = false ∨ s.store.present (root / ("tmp-" ++ r.version.text)).bytes = true →
      package e r root label s = (.error (.workDirExists (root / ("tmp-" ++ r.version.text))), s)) ∧
    (r.mode = .release → ∃ failure t, package e r root label s = (.error failure, t) ∧
      t.history = s.history ∧ s.store.Gains t.store) := by
  constructor
  · rintro (hlink | hpresent)
    · refine package_of_present e r root label ?_
      rw [Store.present, Store.nodeAt_of_entry hnode hlink]
      rfl
    · exact package_of_present e r root label hpresent
  · intro hmode
    have hentry : s.store.hasEntry (root / ("tmp-" ++ r.version.text)).bytes = true := by
      rw [Store.hasEntry, hnode]
      rfl
    cases hfree : s.store.present (root / ("tmp-" ++ r.version.text)).bytes with
    | true => exact ⟨_, s, package_of_present e r root label hfree, rfl, .refl _⟩
    | false =>
      cases hload : Config.load s.store root with
      | error failure => exact ⟨failure, s, package_of_load_error e r root label hfree hload, rfl, .refl _⟩
      | ok c =>
        obtain ⟨u, hstore, hhistory, hbegins⟩ := package_of_release e r root label hfree hload hmode
        rw [← hstore] at hentry
        obtain ⟨failure, t, hbegin, hsame, hgains⟩ := Job.begin_of_hasEntry
          (j := ⟨e, c, ⟨root, r.version, label⟩, r.sourceDir, r.blenderDir, r.quiet⟩) hentry
        rw [hstore] at hgains
        -- the probe has missed the entry, which a directory cannot be made over
        exact ⟨failure, t, hbegins.trans (bind_of_error _ hbegin), hsame.trans hhistory, hgains⟩

/-- The small checkout with a link in the place of its working directory. -/
def linkedSession (target : String) : Session Unit :=
  .start ⟨smallCheckout.put [Bytes.ofString "r"] (Bytes.ofString "tmp-2.79") (.link (Bytes.ofString target)), []⟩ ()
    ⟨none, []⟩ false

/-- Where the link is. -/
def smallWorkDir : Path := Layout.workDir ⟨⟨"/r"⟩, .v279, smallLabel⟩

/-- A link to the scripts stops a release of the small checkout. -/
theorem link_stops_release :
    (linkedSession "src").store.nodeAt false smallWorkDir.bytes = .ok (.link (Bytes.ofString "src")) ∧
      package (Executor.putting smallTree) smallRequest ⟨"/r"⟩ smallLabel (linkedSession "src") =
        (.error (.workDirExists smallWorkDir), linkedSession "src") ∧
      ∃ failure t, package (Executor.putting smallTree) smallRequest ⟨"/r"⟩ smallLabel (linkedSession "src") =
        (.error failure, t) ∧ t.history = [] ∧ (linkedSession "src").store.Gains t.store := by
  have hnode : (linkedSession "src").store.nodeAt false smallWorkDir.bytes = .ok (.link (Bytes.ofString "src")) := rfl
  have hpresent : (linkedSession "src").store.present smallWorkDir.bytes = true := by decide +kernel
  have hstops := entry_stops_run (Executor.putting smallTree) smallRequest ⟨"/r"⟩ smallLabel (linkedSession "src") hnode
  exact ⟨hnode, hstops.1 (.inr hpresent), hstops.2 rfl⟩

/-- A link that leads nowhere does not stop a development install. -/
theorem dangling_link_passes_install :
    (linkedSession "nowhere").store.nodeAt false smallWorkDir.bytes = .ok (.link (Bytes.ofString "nowhere")) ∧
      (package (Executor.putting smallTree) smallInstall ⟨"/r"⟩ smallLabel (linkedSession "nowhere")).1.toBool = true ∧
      (package (Executor.putting smallTree) smallInstall ⟨"/r"⟩ smallLabel
        (linkedSession "nowhere")).2.history.length = 3 :=
  ⟨rfl, by decide +kernel, by decide +kernel⟩

end StubRelease
