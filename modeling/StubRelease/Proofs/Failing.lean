/-
# StubRelease.Proofs.Failing -- what a failed release leaves

Nothing is rolled back. A release that fails after it called a tool leaves its working directory for inspection
and publishes no distributions (`failed_release_keeps_evidence`). What stood among the published archives and
distributions stands unchanged (`failed_release_keeps_published`), with one exception: the archive goes to its
place long before the distributions, and replaces a file there, so a release that is refused because its version
is published already may have replaced the archive that was published with it.
-/
import StubRelease.Proofs.Releasing

namespace StubRelease

open Sequence Node

variable {σ : Type}

/-! ## Releases that fail -/

section Failing

variable {e : Executor σ} (he : e.WorksInside) {r : Request} (hmode : r.mode = .release) {root : Path}
  {label : Label} {s t : Session σ} (hs : s.store.top.Plain) {failure : Failure}
  (h : package e r root label s = (.error failure, t))

include he hmode hs h

/-- A release fails before it calls a tool, or while it builds in its working directory. -/
theorem failed_release_cases :
    t.history = s.history ∧ Files.GrowsIn (Layout.OutputPlace s.store root) s.store t.store ∨
    ∃ base begun, Job.Begun ⟨root, r.version, label⟩ s.store base (s.store.spelled root) begun ∧
      Builds ⟨root, r.version, label⟩ (s.store.spelled root) begun t.store := by
  obtain ⟨failure', t', hrun, hhistory, hgrows⟩ | ⟨base, d, begun, hbegun, hend⟩ :=
    package_release_cases he hmode root label hs
  · obtain ⟨-, rfl⟩ := outcome_inj.1 (h.symm.trans hrun)
    exact .inl ⟨hhistory, hgrows⟩
  · obtain rfl : d = s.store.spelled root := by
      rw [← hbegun.site.spelled, Store.spelled_congr hbegun.grows.cwd]
    obtain ⟨failure', t', hrun, hbuilds⟩ | ⟨outcome, t', hrun, -⟩ := hend
    · obtain ⟨-, rfl⟩ := outcome_inj.1 (h.symm.trans hrun)
      exact .inr ⟨base, begun, hbegun, hbuilds⟩
    · cases (outcome_inj.1 (h.symm.trans hrun)).1

/-- Outside its working directory and its archive a release that fails has made directories at most. -/
theorem failed_release_grows {p : List Name}
    (hwork : ¬ Layout.workAt ⟨root, r.version, label⟩ (s.store.spelled root) <+: p)
    (harchive : p ≠ Layout.archiveAt ⟨root, r.version, label⟩ (s.store.spelled root)) :
    t.store.top.look p = s.store.top.look p ∨ s.store.top.look p = none ∧ t.store.top.look p = some .dir ∧
      Layout.OutputPlace s.store root p := by
  have hmade {base : Store} (hgrows : Files.GrowsIn (Layout.OutputPlace s.store root) s.store base) :
      base.top.look p = s.store.top.look p ∨ s.store.top.look p = none ∧ base.top.look p = some .dir ∧
        Layout.OutputPlace s.store root p := by
    by_cases hplace : Layout.OutputPlace s.store root p
    · exact (hgrows.grows.look p).imp_right fun ⟨hnone, hdir⟩ => ⟨hnone, hdir, hplace⟩
    · exact .inl (hgrows.look p hplace)
  obtain ⟨-, hgrows⟩ | ⟨base, begun, hbegun, hbuilds⟩ := failed_release_cases he hmode hs h
  · exact hmade hgrows
  · have hbase : begun.top.look p = base.top.look p := by
      rw [hbegun.store]
      exact look_put_elsewhere base.top _ hwork
    have hkept : t.store.top.look p = base.top.look p :=
      (hbuilds.look (fun hinside => hwork hinside.isPrefix) harchive).trans hbase
    rw [hkept]
    exact hmade hbegun.grows

/-- What stood among the archives and the distributions stands after a release that fails, whatever step failed,
except that the archive of the same version and label may be another file. -/
theorem failed_release_keeps_published {p : List Name}
    (hp : Layout.rawModulesAt (s.store.spelled root) <+: p ∨ Layout.releaseAt (s.store.spelled root) <+: p)
    (hstood : s.store.top.look p ≠ none) :
    t.store.top.look p = s.store.top.look p ∨
      p = Layout.archiveAt ⟨root, r.version, label⟩ (s.store.spelled root) ∧ s.store.top.look p ≠ some .dir ∧
        ∃ content executable, t.store.top.look p = some (.file content executable) := by
  have hwork : ¬ Layout.workAt ⟨root, r.version, label⟩ (s.store.spelled root) <+: p :=
    hp.elim Layout.not_workAt_of_rawModulesAt Layout.not_workAt_of_releaseAt
  by_cases harchive : p = Layout.archiveAt ⟨root, r.version, label⟩ (s.store.spelled root)
  · obtain ⟨seen, hseen⟩ := Option.ne_none_iff_exists'.1 hstood
    obtain ⟨-, hgrows⟩ | ⟨base, begun, hbegun, hbuilds⟩ := failed_release_cases he hmode hs h
    · rw [hgrows.grows.look_eq hseen, hseen]
      exact .inl rfl
    · have hbegan : begun.top.look p = s.store.top.look p := by
        rw [hbegun.store, hseen, ← hbegun.grows.grows.look_eq hseen]
        exact look_put_elsewhere base.top _ hwork
      have hbuilt := hbuilds.archive
      rw [← harchive, hbegan] at hbuilt
      exact hbuilt.imp_right fun hfile => ⟨harchive, hfile⟩
  · refine .inl ((failed_release_grows he hmode hs h hwork harchive).resolve_right ?_)
    rintro ⟨hnone, -⟩
    exact hstood hnone

/-- A release that fails after it called a tool has its working directory in place, and the release tree is as it
was, whatever step failed. Only directories may have come there: the release directory itself, and those on the
way of a root that did not exist. -/
theorem failed_release_keeps_evidence (hcalled : t.history ≠ s.history) :
    ∃ d, t.store.Reaches root d ∧ t.store.isDir (Layout.workDir ⟨root, r.version, label⟩).bytes = true ∧
      (∀ p, Layout.releaseAt d <+: p → t.store.top.look p = s.store.top.look p ∨
        s.store.top.look p = none ∧ t.store.top.look p = some .dir ∧ (p = Layout.releaseAt d ∨
          OnWay (s.store.origin (Route.ofBytes root.bytes)) (Route.hopsOf root.bytes) p)) ∧
      (s.store.Reaches root d → ∀ p, Layout.releaseAt d <+: p → p ≠ Layout.releaseAt d →
        t.store.top.look p = s.store.top.look p) := by
  have hgrown (p : List Name) (hp : Layout.releaseAt (s.store.spelled root) <+: p) :=
    failed_release_grows he hmode hs h (Layout.not_workAt_of_releaseAt hp) (Layout.archiveAt_ne_of_releaseAt hp)
  have hraw {p : List Name} (hp : Layout.releaseAt (s.store.spelled root) <+: p) :
      p ≠ Layout.rawModulesAt (s.store.spelled root) := by
    rintro rfl
    exact Layout.not_rawModulesAt_of_releaseAt hp List.prefix_rfl
  obtain ⟨hsame, -⟩ | ⟨base, begun, hbegun, hbuilds⟩ := failed_release_cases he hmode hs h
  · exact absurd hsame hcalled
  have hworking := hbegun.working.builds hbegun.site hbuilds
  refine ⟨s.store.spelled root, hworking.reaches hbegun.site, ?_, fun p hp => ?_, fun hroot p hp hne => ?_⟩
  · exact Store.isDir_of_look (Layout.isName_work r.version) (hworking.finds hbegun.site)
      (Layout.length_work_le r.version) hworking.stands
  · rcases hgrown p hp with heq | ⟨hnone, hdir, hplace⟩
    · exact .inl heq
    refine .inr ⟨hnone, hdir, ?_⟩
    rcases hplace with hway | heq | heq
    · exact .inr hway
    · exact absurd heq (hraw hp)
    · exact .inl heq
  · rcases hgrown p hp with heq | ⟨hnone, -, hway | heq | heq⟩
    · exact heq
    · -- the way of a root that exists consists of directories
      rw [hroot.look_of_onWay hs.linkFree hway] at hnone
      cases hnone
    · exact absurd heq (hraw hp)
    · exact absurd heq hne

end Failing

/-- Tools that fail and do nothing. -/
def Executor.failing : Executor Unit where
  run _ tools store := { result := .ok (.ofExitCode 1), out := [], err := [], tools, store }

theorem Executor.worksInside_failing : Executor.failing.WorksInside := fun _ _ _ hs => .refl hs

/-- The failure that a run ended with. -/
def failure? : Except Failure Outcome → Option Failure
  | .error failure => some failure
  | .ok _ => none

theorem eq_error_of_failure? {result : Except Failure Outcome} {failure : Failure}
    (h : failure? result = some failure) : result = .error failure := by
  cases result with
  | error other => rw [Option.some.inj h]
  | ok outcome => cases h

/-- A session that begins in the small checkout. -/
abbrev smallSession : Session Unit := .start ⟨smallCheckout, []⟩ () ⟨none, []⟩ false

/-- The failing tools fail a release of the small checkout at their first call. -/
theorem failing_fails : ∃ failure t,
    package Executor.failing smallRequest ⟨"/r"⟩ smallLabel smallSession = (.error failure, t) ∧
      t.history ≠ smallSession.history := by
  have hevaluated : (package Executor.failing smallRequest ⟨"/r"⟩ smallLabel smallSession).1.toBool = false ∧
      (package Executor.failing smallRequest ⟨"/r"⟩ smallLabel smallSession).2.history.length = 1 := by
    decide +kernel
  cases hrun : package Executor.failing smallRequest ⟨"/r"⟩ smallLabel smallSession with
  | mk result t =>
    rw [hrun] at hevaluated
    cases result with
    | ok outcome => cases hevaluated.1
    | error failure =>
      refine ⟨failure, t, rfl, fun hnil => ?_⟩
      rw [hnil] at hevaluated
      cases hevaluated.2

theorem failing_release_of_small_checkout :
    Executor.failing.WorksInside ∧ smallCheckout.Plain ∧ ∃ failure t,
      package Executor.failing smallRequest ⟨"/r"⟩ smallLabel smallSession = (.error failure, t) ∧
        t.history ≠ smallSession.history ∧ ∃ d, t.store.Reaches ⟨"/r"⟩ d ∧
          t.store.isDir (Layout.workDir ⟨⟨"/r"⟩, .v279, smallLabel⟩).bytes = true ∧
          (∀ p, Layout.releaseAt d <+: p → t.store.top.look p = smallCheckout.look p ∨
            smallCheckout.look p = none ∧ t.store.top.look p = some .dir ∧ (p = Layout.releaseAt d ∨
              OnWay (smallSession.store.origin (Route.ofBytes (Path.bytes ⟨"/r"⟩)))
                (Route.hopsOf (Path.bytes ⟨"/r"⟩)) p)) ∧
          (smallSession.store.Reaches ⟨"/r"⟩ d → ∀ p, Layout.releaseAt d <+: p → p ≠ Layout.releaseAt d →
            t.store.top.look p = smallCheckout.look p) := by
  obtain ⟨failure, t, hrun, hcalled⟩ := failing_fails
  exact ⟨Executor.worksInside_failing, plain_smallCheckout, failure, t, hrun, hcalled,
    failed_release_keeps_evidence (s := smallSession) (r := smallRequest) Executor.worksInside_failing rfl
      plain_smallCheckout hrun hcalled⟩

/-- The root of the small checkout, written through release directories that do not exist. -/
def detour : Path := ⟨"/r/release/2.79/../.."⟩

/-- A root that is written through a directory of its release tree brings that directory about, even when the
release fails. -/
theorem failing_release_on_detour :
    Executor.failing.WorksInside ∧ smallCheckout.Plain ∧
      let run := package Executor.failing smallRequest detour smallLabel smallSession
      run.1.toBool = false ∧ run.2.history.length = 1 ∧
        smallCheckout.look (Layout.versionAt ⟨detour, .v279, smallLabel⟩ [Bytes.ofString "r"]) = none ∧
        run.2.store.top.look (Layout.versionAt ⟨detour, .v279, smallLabel⟩ [Bytes.ofString "r"]) = some .dir := by
  have hmade : (Option.any isDir <|
      (package Executor.failing smallRequest detour smallLabel smallSession).2.store.top.get?
        (Layout.versionAt ⟨detour, .v279, smallLabel⟩ [Bytes.ofString "r"])) = true := by
    decide +kernel
  refine ⟨Executor.worksInside_failing, plain_smallCheckout, by decide +kernel, by decide +kernel,
    by decide +kernel, ?_⟩
  obtain ⟨node, hnode, hdir⟩ := (Option.any_eq_true _ _).1 hmade
  cases node with
  | file _ _ => cases hdir
  | link _ => cases hdir
  | dir entries => exact look_eq_dir.2 ⟨entries, hnode⟩

/-- Another module. -/
def otherTree : Node := emptyDir.put [] (Bytes.ofString "new.py") (.ofBytes [10])

theorem plain_otherTree : otherTree.Plain := Plain.emptyDir.put [] (by decide) (.file _ _)

/-- Where the small release is published. -/
def smallDist : Path := ⟨"/r/release/2.79/dist"⟩

/-- A release of the small checkout, and then one under the same label with other modules. -/
def firstRelease : Except Failure Outcome × Session Unit :=
  package (Executor.putting smallTree) smallRequest ⟨"/r"⟩ smallLabel smallSession

def secondRelease : Except Failure Outcome × Session Unit :=
  package (Executor.putting otherTree) smallRequest ⟨"/r"⟩ smallLabel firstRelease.2

theorem plain_firstRelease : firstRelease.2.store.top.Plain := by
  rw [firstRelease]
  exact package_release_plain (Executor.worksInside_putting plain_smallTree) rfl _ _ plain_smallCheckout

theorem secondRelease_refused : secondRelease.1 = .error (.destinationExists smallDist) :=
  eq_error_of_failure? (by decide +kernel)

theorem refused_release_keeps_dist :
    (Executor.putting otherTree).WorksInside ∧ firstRelease.2.store.top.Plain ∧
      Layout.releaseAt (firstRelease.2.store.spelled ⟨"/r"⟩) <+: smallDist.place ∧
      firstRelease.2.store.top.look smallDist.place ≠ none ∧
      (secondRelease.2.store.top.look smallDist.place = firstRelease.2.store.top.look smallDist.place ∨
        smallDist.place = Layout.archiveAt ⟨⟨"/r"⟩, .v279, smallLabel⟩ (firstRelease.2.store.spelled ⟨"/r"⟩) ∧
          firstRelease.2.store.top.look smallDist.place ≠ some .dir ∧ ∃ content executable,
            secondRelease.2.store.top.look smallDist.place = some (.file content executable)) := by
  have hplace : Layout.releaseAt (firstRelease.2.store.spelled ⟨"/r"⟩) <+: smallDist.place := by decide +kernel
  have hstood : firstRelease.2.store.top.look smallDist.place ≠ none := by decide +kernel
  have hrefused : secondRelease.1 = .error (.destinationExists smallDist) := secondRelease_refused
  cases hrun : secondRelease with
  | mk result t =>
    rw [hrun] at hrefused
    obtain rfl : result = _ := hrefused
    rw [secondRelease] at hrun
    exact ⟨Executor.worksInside_putting plain_otherTree, plain_firstRelease, hplace, hstood,
      failed_release_keeps_published (r := smallRequest) (s := firstRelease.2)
        (Executor.worksInside_putting plain_otherTree) rfl plain_firstRelease hrun (.inr hplace) hstood⟩

/-- The second release of a version is refused, and the archive of the first one is gone. -/
theorem refused_release_replaces_archive :
    (Executor.putting otherTree).WorksInside ∧ firstRelease.2.store.top.Plain ∧ firstRelease.1.toBool = true ∧
      secondRelease.1 = .error (.destinationExists smallDist) ∧
        secondRelease.2.store.top.look smallArchive ≠ firstRelease.2.store.top.look smallArchive := by
  have hfirst : firstRelease.1.toBool = true ∧ filesAt firstRelease.2.store.top smallArchive =
      some [Bytes.ofString "fake_bpy_modules_2.79-1/bpy.py"] := by
    decide +kernel
  have hsecond : filesAt secondRelease.2.store.top smallArchive =
      some [Bytes.ofString "fake_bpy_modules_2.79-1/new.py"] := by
    decide +kernel
  refine ⟨Executor.worksInside_putting plain_otherTree, plain_firstRelease, hfirst.1,
    secondRelease_refused, fun heq => ?_⟩
  have hfiles := filesAt_congr heq
  rw [hfirst.2, hsecond] at hfiles
  exact absurd hfiles (by decide)

end StubRelease
