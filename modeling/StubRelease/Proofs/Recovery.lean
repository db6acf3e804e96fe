/-
# StubRelease.Proofs.Recovery -- releasing again after a failure

A release that failed leaves the output directories, its working directory, and perhaps an archive. Once the
working directory is removed the checkout is as before but for the archive (`Layout.AlikeButArchive`). The same release
can then be run again, and with the imitated tools it ends as if the failed one had never been tried, in the same
outcome and in the same tree (`rerun_recovers`): it leads from either checkout to the same tree, since whatever stood
at the archive's place is replaced.
-/
import StubRelease.Proofs.Ordering

namespace StubRelease

open Sequence Node

variable {σ : Type}

/-! ## Clearing a failed release away -/

/-- A checkout that is as another one but for the archive, where no directory came. -/
structure Layout.AlikeButArchive (l : Layout) (d : List Name) (base other : Store) : Prop where
  site : l.Site d other
  cwd : other.cwd = base.cwd
  look : ∀ p, p ≠ l.archiveAt d → other.top.look p = base.top.look p
  archive : base.top.look (l.archiveAt d) ≠ some .dir → other.top.look (l.archiveAt d) ≠ some .dir

/-- Without its working directory, a release that failed leaves the checkout as it was but for the archive. -/
theorem Job.Begun.cleared {l : Layout} {s base begun t : Store} {d : List Name} (h : Job.Begun l s base d begun)
    (hbuilds : Builds l d begun t) :
    l.AlikeButArchive d base (t.drop d (Bytes.ofString ("tmp-" ++ l.version.text))) := by
  have hworking := h.working.builds h.site hbuilds
  have hdropped : t.top.ChangesIn (l.workAt d <+: ·) (t.drop d (Bytes.ofString ("tmp-" ++ l.version.text))).top :=
    ChangesIn.drop hworking.plain d _
  have hkeeps := h.site.keepsDirs hworking.keeps hdropped
  have hnone (rest : List Name) :
      (t.drop d (Bytes.ofString ("tmp-" ++ l.version.text))).top.look (l.workAt d ++ rest) = none := by
    rw [Layout.workAt, List.append_assoc, List.singleton_append, Store.top_drop, look_drop]
  have hfree := hnone []
  rw [List.append_nil] at hfree
  constructor
  case site =>
    exact ⟨hdropped.plain, ⟨h.site.reaches hkeeps hworking.cwd, h.site.finds.no_nul, h.site.finds.fits⟩, hfree,
      hkeeps _ h.site.rawModules, hkeeps _ h.site.release⟩
  case cwd => exact hworking.cwd
  case look =>
    intro p hp
    by_cases hat : l.workAt d <+: p
    · have hbefore : base.top.look p = none :=
        Classical.byContradiction fun hstood => h.site.not_isPrefix hstood hat
      obtain ⟨rest, rfl⟩ := hat
      rw [hnone, hbefore]
    · rw [hdropped.look p hat, hbuilds.look (fun hinside => hat hinside.isPrefix) hp, h.store,
        Layout.Site.entered_look hat]
  case archive =>
    intro hbase hdir
    rw [hdropped.look _ Layout.not_workAt_isPrefix_archiveAt] at hdir
    rcases hbuilds.archive with heq | ⟨-, content, executable, hfile⟩
    · rw [heq, h.store, Layout.Site.entered_look Layout.not_workAt_isPrefix_archiveAt] at hdir
      exact hbase hdir
    · rw [hfile] at hdir
      cases hdir

/-- A configuration file is not brought about by a release that failed. -/
theorem Job.Begun.no_config {l : Layout} {s base begun other : Store} {d : List Name} (h : Job.Begun l s base d begun)
    (halike : l.AlikeButArchive d base other) {content : Content} {executable : Bool}
    (hfile : other.top.look (d ++ [Bytes.ofString Config.fileName]) = some (.file content executable)) :
    s.top.look (d ++ [Bytes.ofString Config.fileName]) = some (.file content executable) := by
  have hne : d ++ [Bytes.ofString Config.fileName] ≠ l.archiveAt d := by
    intro heq
    have hlength := congrArg List.length heq
    simp [Layout.archiveAt, Layout.rawModulesAt] at hlength
  rw [halike.look _ hne] at hfile
  rcases h.grows.grows.look (d ++ [Bytes.ofString Config.fileName]) with heq | ⟨-, hdir⟩
  · rw [← heq, hfile]
  · rw [hfile] at hdir
    cases hdir

/-- A release leads from a checkout that is alike but for the archive to the same store. -/
theorem Layout.AlikeButArchive.leads {l : Layout} {d : List Name} {base other t : Store}
    (h : l.AlikeButArchive d base other) (hready : l.Releasable d base) (hreleased : l.Released d base t) :
    l.Leads other t := by
  have hlook {p : List Name} (hp : ¬ Below d outputNames p ∨ releaseAt d <+: p) : other.top.look p = base.top.look p := by
    refine h.look p ?_
    rintro rfl
    rcases hp with hinput | hrelease
    · exact hinput mayAlter_archive.below
    · exact archiveAt_ne_of_releaseAt hrelease rfl
  have hready' : l.Releasable d other := by
    refine ⟨hready.fits, hready.room, hready.short, hready.inputs.of_look fun p hp => hlook (.inl hp),
      h.archive hready.archive, ?_, ?_⟩
    · rw [hlook (.inr releaseAt_isPrefix_versionAt)]
      exact hready.version
    · rw [hlook (.inr releaseAt_isPrefix_distAt), hready.free]
  refine (leads_iff h.site.spelled).2 ⟨other, h.site.makesOutputDirs hready.fits, h.site, hready', ?_⟩
  refine hreleased.of_look hreleased.plain (hreleased.cwd.trans h.cwd.symm) (fun _ _ => rfl) fun p hp => ?_
  rw [hreleased.look p hp, h.look p]
  rintro rfl
  exact hp mayAlter_archive

/-- A release that failed, at whatever step, can be made again once its working directory is removed. If the
imitated tools would have made it at first, they make it then, with the same outcome and the same tree, in whatever
orders directories are listed. -/
theorem rerun_recovers {e : Executor σ} (he : e.WorksInside) {r : Request} (hmode : r.mode = .release) {root : Path}
    {label : Label} {s t : Session σ} (hs : s.store.top.Plain)
    (hconfig : ∀ content executable, s.store.top.look (s.store.spelled root ++ [Bytes.ofString Config.fileName]) ≠
      some (.file content executable)) {failure : Failure} (hfailed : package e r root label s = (.error failure, t))
    (hcalled : t.history ≠ s.history) {order : Listing.Order} {direct done : Session (List Call)} {outcome : Outcome}
    (hdirect : direct.store = s.store)
    (hok : package (Imitation.executor none order) r root label direct = (.ok outcome, done)) :
    ∃ cleared, Files.removeTree (Layout.workDir ⟨root, r.version, label⟩).bytes t.store = (.ok (), cleared) ∧
      ∀ (order' : Listing.Order) (again : Session (List Call)), again.store = cleared → ∃ finished,
        package (Imitation.executor none order') r root label again = (.ok outcome, finished) ∧
          finished.store = done.store := by
  obtain ⟨hsame, -⟩ | ⟨base, begun, hbegun, hbuilds⟩ := failed_release_cases he hmode hs hfailed
  · exact absurd hsame hcalled
  refine ⟨_, (hbegun.working.builds hbegun.site hbuilds).removeTree hbegun.site, fun order' again hagain => ?_⟩
  have halike := hbegun.cleared hbuilds
  rw [← hagain] at halike
  -- the direct run begins in the same checkout
  rw [← hdirect] at hs
  obtain ⟨rfl, base', hmakes, hsite, hready, hreleased⟩ :=
    (package_eq_ok_iff_leads hs (by rwa [Store.Unconfigured, hdirect]) order hmode).1 ⟨done, hok, rfl⟩
  rw [hdirect] at hmakes hready hreleased
  obtain rfl : base = base' := hbegun.makes.unique hmakes
  -- and the other one where it has come to once the working directory is removed
  have hconfig' : again.store.Unconfigured root := fun content executable hfile => by
    rw [halike.site.spelled] at hfile
    exact hconfig content executable (hbegun.no_config halike hfile)
  exact (package_eq_ok_iff_leads halike.site.plain hconfig' order' hmode).2 ⟨rfl, halike.leads hready hreleased⟩

theorem rerun_of_small_checkout :
    Executor.failing.WorksInside ∧ smallCheckout.Plain ∧ ∃ failure t outcome done,
      package Executor.failing smallRequest ⟨"/r"⟩ smallLabel smallSession = (.error failure, t) ∧
        t.history ≠ smallSession.history ∧
        package (Imitation.executor none .ascending) smallRequest ⟨"/r"⟩ smallLabel smallDirect = (.ok outcome, done) ∧
        ∃ cleared, Files.removeTree (Layout.workDir ⟨⟨"/r"⟩, .v279, smallLabel⟩).bytes t.store = (.ok (), cleared) ∧
          ∀ (order' : Listing.Order) (again : Session (List Call)), again.store = cleared → ∃ finished,
            package (Imitation.executor none order') smallRequest ⟨"/r"⟩ smallLabel again = (.ok outcome, finished) ∧
              finished.store = done.store := by
  obtain ⟨failure, t, hrun, hcalled⟩ := failing_fails
  have hstart : smallDirect.store = smallSession.store := rfl
  have hdone : (package (Imitation.executor none .ascending) smallRequest ⟨"/r"⟩ smallLabel
      smallDirect).1.toBool = true := by
    decide +kernel
  cases hdirect : package (Imitation.executor none .ascending) smallRequest ⟨"/r"⟩ smallLabel smallDirect with
  | mk result done =>
    rw [hdirect] at hdone
    cases result with
    | error _ => cases hdone
    | ok outcome =>
      exact ⟨Executor.worksInside_failing, plain_smallCheckout, failure, t, outcome, done, hrun, hcalled, rfl,
        rerun_recovers (s := smallSession) (r := smallRequest) Executor.worksInside_failing rfl
          plain_smallCheckout no_config_smallCheckout hrun hcalled hstart hdirect⟩

end StubRelease
