/-
# StubRelease.Proofs.Releasing -- what a release alters

A release ends in one of three ways (`package_release_cases`). It fails before it calls a tool, and has made
directories at most. Or it fails with its working directory in place: all that was altered then is the inside
of that directory and the place of the archive, where no directory comes or goes (`Builds`). Or it is finished
and has added its distributions to the release tree, where none were (`Releases`). The last stage, publishing,
comes to nothing or succeeds: with the paths that a run has read before it, no step of it can fail half way.
-/
import StubRelease.Proofs.Frame

namespace StubRelease

open Sequence Node

variable {σ : Type}

/-! ## Building a release -/

/-- What happens while a release is built: the inside of the working directory is altered, and the place of
the archive, where a file comes then and no directory was. -/
structure Builds (l : Layout) (d : List Name) (s t : Store) : Prop where
  alters : s.AltersIn (fun p => Inside (l.workAt d) p ∨ p = l.archiveAt d) t
  archive : t.top.look (l.archiveAt d) = s.top.look (l.archiveAt d) ∨
    s.top.look (l.archiveAt d) ≠ some .dir ∧
      ∃ content executable, t.top.look (l.archiveAt d) = some (.file content executable)

namespace Builds

variable {l : Layout} {d : List Name} {s t u : Store}

theorem trans (h : Builds l d s t) (h' : Builds l d t u) : Builds l d s u := by
  refine ⟨h.alters.trans h'.alters, ?_⟩
  rcases h'.archive with heq | ⟨hnot, hfile⟩
  · rw [heq]
    exact h.archive
  · refine .inr ⟨fun hdir => ?_, hfile⟩
    rcases h.archive with heq | ⟨hnot', -⟩
    · exact hnot (heq.trans hdir)
    · exact hnot' hdir

theorem of_inside (h : s.AltersIn (Inside (l.workAt d)) t) : Builds l d s t := by
  refine ⟨h.mono fun _ => .inl, .inl ?_⟩
  rw [h.look fun hinside => Layout.not_workAt_isPrefix_archiveAt hinside.isPrefix]

theorem refl (hs : s.top.Plain) : Builds l d s s := ⟨.refl hs, .inl rfl⟩

/-- Where a directory stood at the archive's place it stays. -/
theorem dir (h : Builds l d s t) (hdir : s.top.look (l.archiveAt d) = some .dir) :
    t.top.look (l.archiveAt d) = some .dir := by
  rcases h.archive with heq | ⟨hnot, -⟩
  · rw [heq, hdir]
  · exact absurd hdir hnot

theorem plain (h : Builds l d s t) : t.top.Plain := h.alters.plain

/-- What is neither inside the working directory nor the archive stays. -/
theorem look (h : Builds l d s t) {p : List Name} (hwork : ¬ Inside (l.workAt d) p)
    (harchive : p ≠ l.archiveAt d) : t.top.look p = s.top.look p :=
  h.alters.look (not_or.2 ⟨hwork, harchive⟩)

end Builds

/-- What a finished release has altered: its working directory and its archive, and it has added distributions
where none were. -/
def Releases (l : Layout) (d : List Name) (s t : Store) : Prop :=
  s.AddsIn (fun p => l.workAt d <+: p ∨ p = l.archiveAt d) (l.PublishedAt d) t

namespace Job

/-- Builds the distributions of a release, before they are published. -/
def build (j : Job σ) (workDir : Path) : Run σ Path := do
  let archive ← j.generateAndStage .release workDir
  j.runSetup workDir SetupCommand.forRelease
  pure archive

theorem releaseIn_eq (j : Job σ) (workDir : Path) : j.releaseIn workDir = (do
    let archive ← j.build workDir
    let dist ← Run.ofWork (Staging.publishDist workDir j.layout.versionReleaseDir)
    pure ⟨archive, some dist⟩) := by
  simp [releaseIn, build]

variable {j : Job σ} {s : Session σ} {d : List Name}

theorem archiveGenerated_builds (hs : s.store.top.Plain) (hd : s.store.spelled j.layout.root = d) :
    Builds j.layout d s.store (j.archiveGenerated j.layout.workDir s).2.store := by
  subst hd
  have hleaves := archiveGenerated_leaves (w := j.layout.workDir) hs Layout.spelled_workDir_ne
  rw [Layout.spelled_workDir] at hleaves
  have halters := (hleaves.alters hs).mono (Q := fun p => Inside (j.layout.workAt
      (s.store.spelled j.layout.root)) p ∨ p = j.layout.archiveAt (s.store.spelled j.layout.root)) <| by
    rintro p (rfl | hp)
    · exact .inl ⟨_, [], rfl⟩
    · exact .inr hp
  refine ⟨halters, ?_⟩
  have hdraft : ¬ j.layout.workAt (s.store.spelled j.layout.root) ++ [Bytes.ofString j.layout.archiveFileName] <+:
      j.layout.archiveAt (s.store.spelled j.layout.root) := fun hat =>
    Layout.not_workAt_isPrefix_archiveAt ((List.prefix_append _ _).trans hat)
  generalize (j.archiveGenerated j.layout.workDir s).2.store = t at hleaves ⊢
  generalize (j.archiveGenerated j.layout.workDir s).1 = result at hleaves
  cases hleaves with
  | nothing failure same => exact .inl (by rw [same])
  | draft failure content executable dir beside store =>
    rw [store, Store.top_put, look_put_elsewhere _ _ hdraft]
    exact .inl rfl
  | archive content executable dir beside short fits rawModules replaced store =>
    have hraw := KeepsDirs.drop beside _ rawModules
    rw [store, Store.top_put, Store.top_drop, Layout.archiveAt, look_put hraw]
    exact .inr ⟨replaced, content, executable, rfl⟩

/-- Every stage of a release builds. -/
theorem stagewise_builds (he : j.executor.WorksInside) (d : List Name) :
    j.Stagewise j.layout.workDir (fun s => s.top.Plain ∧ s.spelled j.layout.root = d) (Builds j.layout d) where
  refl hs := .refl hs.1
  trans := .trans
  keeps hs h := ⟨h.plain, (h.alters.spelled _).trans hs.2⟩
  call := by
    rintro s c ⟨hs, rfl⟩ hcwd
    exact .of_inside (Run.callChecked_alters he hs (Layout.isName_work j.layout.version) hcwd)
  archive hs := archiveGenerated_builds hs.1 hs.2
  promote := by
    rintro s ⟨hs, rfl⟩
    have hinside := (Staging.promoteGenerated_promotes j.executor.order (w := j.layout.workDir) hs).alters
    rw [Layout.spelled_workDir] at hinside
    exact .of_inside hinside
  copy := by
    rintro s ⟨hs, rfl⟩
    have hcopies := Staging.copyMetadata_alters (w := j.layout.workDir) hs j.config
    rw [Layout.spelled_workDir] at hcopies
    refine .of_inside (hcopies.mono ?_)
    rintro p ⟨name, -, rfl⟩
    exact ⟨_, [], rfl⟩

theorem build_builds (hs : s.store.top.Plain) (hd : s.store.spelled j.layout.root = d)
    (he : j.executor.WorksInside) : Builds j.layout d s.store (j.build j.layout.workDir s).2.store := by
  have h := stagewise_builds he d
  refine h.bind ⟨hs, hd⟩ (h.generateAndStage ⟨hs, hd⟩ .release) fun _ s₁ _ hs₁ => ?_
  exact h.bind hs₁ (h.runSetup hs₁ _) fun _ s₂ _ hs₂ => h.refl hs₂

/-- The path of an archive that was put into its place can be read. -/
theorem fits_of_archiveGenerated {w : Path} {t : Session σ} (h : j.archiveGenerated w s = (.ok (), t)) :
    j.layout.archivePath.bytes.length < Route.lengthLimit := by
  obtain ⟨summary, u, -, hrename⟩ := bind_eq_ok.1 h
  have hmoved := ofFiles_eq_ok.1 (ofWork_eq_ok hrename).1
  obtain ⟨found, u', -, hmoved⟩ := bind_eq_ok.1 hmoved
  obtain ⟨found', u'', hplace, -⟩ := bind_eq_ok.1 hmoved
  rw [Files.ask_eq] at hplace
  obtain ⟨d, hfinds, -⟩ := (Store.place_div_eq_ok j.layout.isName_archive).1 (outcome_inj.1 hplace).1
  exact hfinds.fits

/-- What is known of a release whose distributions are built. -/
theorem build_eq_ok {w path : Path} {t : Session σ} (h : j.build w s = (.ok path, t)) :
    path = j.layout.archivePath ∧ j.layout.archivePath.bytes.length < Route.lengthLimit := by
  obtain ⟨archive, s₁, hstage, h⟩ := bind_eq_ok.1 h
  obtain ⟨_, s₂, -, h⟩ := bind_eq_ok.1 h
  obtain rfl := Except.ok.inj (outcome_inj.1 h).1
  obtain ⟨_, s₃, -, hstage⟩ := bind_eq_ok.1 hstage
  obtain ⟨_, s₄, -, hstage⟩ := bind_eq_ok.1 hstage
  obtain ⟨_, s₅, -, hstage⟩ := bind_eq_ok.1 hstage
  obtain ⟨_, s₆, harchive, hstage⟩ := bind_eq_ok.1 hstage
  refine ⟨?_, fits_of_archiveGenerated harchive⟩
  obtain ⟨_, s₇, -, hstage⟩ := bind_eq_ok.1 hstage
  obtain ⟨_, s₈, -, hstage⟩ := bind_eq_ok.1 hstage
  obtain ⟨_, s₉, -, hstage⟩ := bind_eq_ok.1 hstage
  obtain ⟨_, u, -, hstage⟩ := bind_eq_ok.1 hstage
  exact (Except.ok.inj (outcome_inj.1 hstage).1).symm

end Job

/-! ## The working directory of a release -/

namespace Layout

/-- A checkout in which a release can be built: the output directories stand, and nothing stands where the
working directory will be made. -/
structure Site (l : Layout) (d : List Name) (base : Store) : Prop where
  plain : base.top.Plain
  finds : base.Finds l.root ("tmp-" ++ l.version.text) d
  free : base.top.look (l.workAt d) = none
  rawModules : base.top.look (rawModulesAt d) = some .dir
  release : base.top.look (releaseAt d) = some .dir

/-- A checkout in which the working directory was made. -/
def entered (l : Layout) (d : List Name) (base : Store) : Store :=
  base.put d (Bytes.ofString ("tmp-" ++ l.version.text)) .emptyDir

/-- A store in which a release is being built: the working directory stands, and all directories that stood
before it was made. -/
structure Working (l : Layout) (d : List Name) (base s : Store) : Prop where
  plain : s.top.Plain
  cwd : s.cwd = base.cwd
  keeps : base.top.KeepsDirs s.top
  stands : s.top.look (l.workAt d) = some .dir

/-- Distributions are built, and where they will be published nothing stands. -/
structure Publishable (l : Layout) (d : List Name) (s : Store) : Prop where
  built : s.top.look (l.workAt d ++ [Bytes.ofString distName]) = some .dir
  version : s.top.look (l.versionAt d) = none ∨ s.top.look (l.versionAt d) = some .dir
  free : s.top.look (l.distAt d) = none

/-- What publishing and clearing away the working directory leave. -/
structure Finishes (l : Layout) (d : List Name) (s t : Store) : Prop where
  adds : s.AddsIn (l.workAt d <+: ·) (l.PublishedAt d) t
  cleared : ∀ rest, t.top.look (l.workAt d ++ rest) = none
  dist : ∀ rest, t.top.look (l.distAt d ++ rest) = s.top.look (l.workAt d ++ [Bytes.ofString distName] ++ rest)

variable {l : Layout} {d : List Name} {base s t : Store}

namespace Site

theorem spelled (h : l.Site d base) : base.spelled l.root = d := (h.finds.reaches.eq_spelled h.plain.linkFree).symm

/-- Nothing stands yet at the place of the working directory or below it. -/
theorem not_isPrefix (h : l.Site d base) {p : List Name} (hp : base.top.look p ≠ none) : ¬ l.workAt d <+: p := by
  rintro ⟨rest, rfl⟩
  cases rest with
  | nil => exact hp (by rw [List.append_nil, h.free])
  | cons first rest => exact hp (look_below_of_not_dir (by simp [h.free]) first rest)

/-- The root goes on being found as long as the directories stay that stood at first. -/
theorem reaches (h : l.Site d base) (hkeeps : base.top.KeepsDirs s.top) (hcwd : s.cwd = base.cwd) :
    s.Reaches l.root d :=
  h.finds.reaches.keeps ⟨hkeeps, fun p target hlink => absurd hlink (h.plain.linkFree p target)⟩ hcwd

/-- What happens at the working directory's place takes no directory away that stood at first. -/
theorem keepsDirs (h : l.Site d base) (hkeeps : base.top.KeepsDirs s.top)
    (hchanges : s.top.ChangesIn (l.workAt d <+: ·) t.top) : base.top.KeepsDirs t.top :=
  hkeeps.of_changesIn hchanges fun _ hp => h.not_isPrefix (by simp [hp])

theorem entered_working (h : l.Site d base) : l.Working d base (l.entered d base) := by
  have hput := ChangesIn.put h.plain d (isName_work l.version) .emptyDir
  exact ⟨hput.plain, rfl, h.keepsDirs (.refl _) hput, look_put h.finds.reaches.dir _ _ []⟩

end Site

/-- Moving the distributions empties their place in the working directory. -/
theorem movePath_publishes (hs : s.top.Plain) (hroot : s.spelled l.root = d) :
    s.AddsIn (Inside (l.workAt d)) (PublishedAt l d)
      (Staging.movePath (l.workDir / distName) (l.versionReleaseDir / distName) s).2 := by
  have halters := Staging.movePath_alters (q := l.workDir) (p := l.versionReleaseDir) hs isName_dist isName_dist
  rw [spelled_workDir, spelled_versionReleaseDir, hroot] at halters
  refine halters.mono ?_
  rintro p (hp | ⟨hnone, rest, rfl⟩)
  · exact .inl (inside_of_entry hp)
  · refine .inr ⟨.inr (List.prefix_append _ _), ?_⟩
    cases rest with
    | nil => rwa [List.append_nil]
    | cons first rest => exact look_below_of_not_dir (by simp [hnone]) first rest

namespace Working

/-- The directories that stood at first stay as long as only other places are altered. -/
theorem after (h : l.Working d base s) {P : List Name → Prop} (halters : s.AltersIn P t)
    (hP : ∀ p, base.top.look p = some .dir → P p → s.top.look p = some .dir → t.top.look p = some .dir)
    (hwork : ¬ P (l.workAt d)) : l.Working d base t where
  plain := halters.plain
  cwd := halters.cwd.trans h.cwd
  keeps p hp := by
    by_cases hat : P p
    · exact hP p hp hat (h.keeps p hp)
    · rw [halters.look hat]
      exact h.keeps p hp
  stands := by rw [halters.look hwork, h.stands]

variable (hsite : l.Site d base) (h : l.Working d base s)

include hsite h

theorem spelled : s.spelled l.root = d := (Store.spelled_congr h.cwd _).trans hsite.spelled

theorem builds (hb : Builds l d s t) : l.Working d base t := by
  refine h.after hb.alters ?_ ?_
  · rintro p hp (hinside | rfl) hstands
    · exact absurd hinside.isPrefix (hsite.not_isPrefix (by simp [hp]))
    · exact hb.dir hstands
  · rintro (hinside | heq)
    · exact not_inside_self _ hinside
    · have hprefix : l.workAt d <+: l.archiveAt d := heq ▸ List.prefix_rfl
      exact not_workAt_isPrefix_archiveAt hprefix

/-- Publishing takes no directory away. -/
theorem adds (hadds : s.AddsIn (Inside (l.workAt d)) (PublishedAt l d) t) : l.Working d base t := by
  refine h.after hadds ?_ ?_
  · rintro p hp (hinside | ⟨-, hnone⟩) hstands
    · exact absurd hinside.isPrefix (hsite.not_isPrefix (by simp [hp]))
    · rw [hnone] at hstands
      cases hstands
  · rintro (hinside | ⟨-, hnone⟩)
    · exact not_inside_self _ hinside
    · rw [h.stands] at hnone
      cases hnone

theorem reaches : s.Reaches l.root d := hsite.reaches h.keeps h.cwd

theorem finds : s.Finds l.root ("tmp-" ++ l.version.text) d :=
  ⟨h.reaches hsite, hsite.finds.no_nul, hsite.finds.fits⟩

theorem reaches_workDir : s.Reaches l.workDir (l.workAt d) :=
  Store.reaches_div (isName_work l.version) (h.reaches hsite) (length_work_le l.version) h.stands

theorem reaches_releaseDir : s.Reaches l.releaseDir (releaseAt d) :=
  Store.reaches_div isName_release (h.reaches hsite) (by decide) (h.keeps _ hsite.release)

/-- The working directory can be removed. -/
theorem removeTree : Files.removeTree l.workDir.bytes s =
    (.ok (), s.drop d (Bytes.ofString ("tmp-" ++ l.version.text))) := by
  have hemptied := ChangesIn.put h.plain d (isName_work l.version) .emptyDir
  have hkept := hsite.reaches (s := s.put d (Bytes.ofString ("tmp-" ++ l.version.text)) .emptyDir)
    (hsite.keepsDirs h.keeps hemptied) h.cwd
  exact Files.removeTree_of_finds (isName_work l.version) (h.finds hsite) (length_work_le l.version) h.stands hkept

/-- The paths of the distributions, in the working directory and where they are published, can be read when
the archive's can. -/
theorem finds_built (hfits : l.archivePath.bytes.length < Route.lengthLimit) :
    s.Finds l.workDir distName (l.workAt d) := by
  have hdist : (Bytes.ofString distName).length = 4 := by decide
  have hlength := Path.length_bytes_div_le (p := l.workDir) isName_dist
  have hwork := l.length_workDir_lt
  refine ⟨h.reaches_workDir hsite, ?_, by omega⟩
  rw [workDir, Path.mem_bytes_div (isName_work l.version)]
  exact hsite.finds.no_nul

theorem finds_dist (hfits : l.archivePath.bytes.length < Route.lengthLimit)
    (hversion : s.top.look (l.versionAt d) = some .dir) : s.Finds l.versionReleaseDir distName (l.versionAt d) := by
  refine ⟨Store.reaches_div (isName_version l.version) (h.reaches_releaseDir hsite) (length_version_le l.version)
    hversion, ?_, Nat.lt_of_le_of_lt l.length_dist_le hfits⟩
  rw [versionReleaseDir, Path.mem_bytes_div (isName_version l.version), releaseDir,
    Path.mem_bytes_div isName_release]
  exact hsite.finds.no_nul

/-- Distributions are moved to where none stand. -/
theorem moveDist (hfits : l.archivePath.bytes.length < Route.lengthLimit)
    (hversion : s.top.look (l.versionAt d) = some .dir)
    (hbuilt : s.top.look (l.workAt d ++ [Bytes.ofString distName]) = some .dir)
    (hnone : s.top.look (l.distAt d) = none) :
    ∃ t, Staging.movePath (l.workDir / distName) (l.versionReleaseDir / distName) s = (.ok (), t) ∧
      ∀ rest, t.top.look (l.distAt d ++ rest) = s.top.look (l.workAt d ++ [Bytes.ofString distName] ++ rest) := by
  obtain ⟨entries, hentries⟩ := look_eq_dir.1 hbuilt
  have hdown : ¬ l.workAt d ++ [Bytes.ofString distName] <+: l.versionAt d := fun hat =>
    not_workAt_of_releaseAt releaseAt_isPrefix_versionAt ((List.prefix_append _ _).trans hat)
  have hdest : (s.top.drop (l.workAt d) (Bytes.ofString distName)).look (l.versionAt d) = some .dir := by
    rw [look_drop_elsewhere _ hdown, hversion]
  refine ⟨_, Staging.movePath_of_free isName_dist (h.finds_built hsite hfits) (by decide) isName_dist
    (h.finds_dist hsite hfits hversion) (by decide) hentries hnone hdown, fun rest => ?_⟩
  rw [distAt, List.append_assoc, List.singleton_append, Store.top_put, Store.top_drop, look_put hdest, look_append,
    hentries, Option.bind_some]

/-- Distributions are not moved to where some stand. -/
theorem moveDist_blocked (hfits : l.archivePath.bytes.length < Route.lengthLimit)
    (hversion : s.top.look (l.versionAt d) = some .dir) {seen : Sight} (hdist : s.top.look (l.distAt d) = some seen) :
    Staging.movePath (l.workDir / distName) (l.versionReleaseDir / distName) s =
      (.error (.destinationExists (l.versionReleaseDir / distName)), s) :=
  Staging.movePath_of_present <| Store.present_of_look isName_dist (h.finds_dist hsite hfits hversion) (by decide)
    hdist fun target hlink => h.plain.linkFree _ target (hlink ▸ hdist)

/-- The directory of the version is made unless something stands in its place. -/
theorem makeDirs_version (hfits : l.archivePath.bytes.length < Route.lengthLimit) :
    Files.makeDirs l.versionReleaseDir.bytes s =
      match s.top.look (l.versionAt d) with
      | none => (.ok (), s.put (releaseAt d) (Bytes.ofString l.version.text) .emptyDir)
      | some .dir => (.ok (), s)
      | some _ => (.error (.os .alreadyExists), s) := by
  have hnul : (0 : UInt8) ∉ l.releaseDir.bytes := by
    rw [releaseDir, Path.mem_bytes_div isName_release]
    exact hsite.finds.no_nul
  have hversionFits : (l.releaseDir / l.version.text).bytes.length < Route.lengthLimit :=
    Nat.lt_trans (Path.length_bytes_lt_div isName_dist) (Nat.lt_of_le_of_lt l.length_dist_le hfits)
  exact Files.makeDirs_of_finds (isName_version l.version) ⟨h.reaches_releaseDir hsite, hnul, hversionFits⟩
    (length_version_le l.version) fun target => h.plain.linkFree _ target

/-- Where the directory of the version is missing it is made, and holds no distributions then. -/
theorem makeVersion (hnone : s.top.look (l.versionAt d) = none) :
    let u := s.put (releaseAt d) (Bytes.ofString l.version.text) .emptyDir
    l.Working d base u ∧ s.AddsIn (Inside (l.workAt d)) (PublishedAt l d) u ∧
      u.top.look (l.versionAt d) = some .dir ∧ u.top.look (l.distAt d) = none := by
  intro u
  have hrelease := h.keeps _ hsite.release
  have hput : s.AltersIn (· = l.versionAt d) u :=
    ⟨rfl, .put_here h.plain (isName_version l.version) .emptyDir hrelease
      (by rw [← versionAt, hnone]; simp) fun _ _ => rfl⟩
  refine ⟨h.after hput ?_ fun heq => ?_, hput.mono ?_, look_put hrelease _ _ [], ?_⟩
  · rintro p - rfl hstands
    rw [hnone] at hstands
    cases hstands
  · have hprefix : l.workAt d <+: l.versionAt d := heq ▸ List.prefix_rfl
    exact not_workAt_of_releaseAt releaseAt_isPrefix_versionAt hprefix
  · rintro p rfl
    exact .inr ⟨.inl rfl, hnone⟩
  · rw [distAt, versionAt, List.append_assoc, List.singleton_append, Store.top_put, look_put hrelease]
    rfl

omit h in
/-- Once the directory of the version stands, the distributions are moved to where none stand. -/
theorem publish_from (hfits : l.archivePath.bytes.length < Route.lengthLimit) {u : Store}
    (hu : l.Working d base u) (hmade : Files.makeDirs l.versionReleaseDir.bytes s = (.ok (), u))
    (hversion : u.top.look (l.versionAt d) = some .dir)
    (hsame : ∀ rest, u.top.look (l.workAt d ++ rest) = s.top.look (l.workAt d ++ rest))
    (hbuilt : s.top.look (l.workAt d ++ [Bytes.ofString distName]) = some .dir)
    (hnone : u.top.look (l.distAt d) = none) (hadds : s.AddsIn (Inside (l.workAt d)) (PublishedAt l d) u) :
    ∃ t, (do
        Work.ofFiles (Files.makeDirs l.versionReleaseDir.bytes)
        Staging.movePath (l.workDir / distName) (l.versionReleaseDir / distName)
        pure (l.versionReleaseDir / distName) : Work Path) s = (.ok (l.versionReleaseDir / distName), t) ∧
      s.AddsIn (Inside (l.workAt d)) (PublishedAt l d) t ∧
      ∀ rest, t.top.look (l.distAt d ++ rest) = s.top.look (l.workAt d ++ [Bytes.ofString distName] ++ rest) := by
  obtain ⟨t, hmoved, hdist⟩ := hu.moveDist hsite hfits hversion ((hsame _).trans hbuilt) hnone
  have hpublishes := movePath_publishes hu.plain (hu.spelled hsite)
  rw [hmoved] at hpublishes
  refine ⟨t, ?_, hadds.trans hpublishes, fun rest => ?_⟩
  · rw [bind_of_ok _ (ofFiles_eq_ok.2 hmade), bind_of_ok _ hmoved]
    rfl
  · rw [hdist, List.append_assoc, hsame]

/-- Publishing does nothing, or it moves the distributions to where nothing stood. -/
theorem publishDist_cases (hfits : l.archivePath.bytes.length < Route.lengthLimit) :
    (¬ l.Publishable d s ∧
      ∃ failure, Staging.publishDist l.workDir l.versionReleaseDir s = (.error failure, s)) ∨
    l.Publishable d s ∧
      ∃ t, Staging.publishDist l.workDir l.versionReleaseDir s = (.ok (l.versionReleaseDir / distName), t) ∧
        s.AddsIn (Inside (l.workAt d)) (PublishedAt l d) t ∧
        ∀ rest, t.top.look (l.distAt d ++ rest) = s.top.look (l.workAt d ++ [Bytes.ofString distName] ++ rest) := by
  by_cases hdir : s.isDir (l.workDir / distName).bytes = true
  · have hrequire : Work.require (·.isDir (l.workDir / distName).bytes) (.missingInput (l.workDir / distName)) s =
        (.ok (), s) := require_eq_ok.2 ⟨hdir, rfl⟩
    obtain ⟨-, -, hbuilt⟩ := Store.finds_of_isDir isName_dist h.plain.linkFree hdir
    rw [spelled_workDir, h.spelled hsite] at hbuilt
    have hmakes := h.makeDirs_version hsite hfits
    rw [Staging.publishDist, bind_of_ok _ hrequire]
    cases hseen : s.top.look (l.versionAt d) with
    | none =>
      rw [hseen] at hmakes
      obtain ⟨hu, hadds, hversion, hnone⟩ := h.makeVersion hsite hseen
      have hfree : s.top.look (l.distAt d) = none := look_below_of_not_dir (by simp [hseen]) _ []
      refine .inr ⟨⟨hbuilt, .inl hseen, hfree⟩, publish_from hsite hfits hu hmakes hversion (fun rest => ?_) hbuilt
        hnone hadds⟩
      rw [Store.top_put, look_put_elsewhere]
      intro hat
      exact not_workAt_of_releaseAt (releaseAt_isPrefix_versionAt.trans hat) (List.prefix_append _ _)
    | some seen =>
      rw [hseen] at hmakes
      have hblocked (hne : seen ≠ .dir) : ¬ l.Publishable d s := by
        intro hpublishable
        have hversion := hpublishable.version
        rw [hseen] at hversion
        simp [hne] at hversion
      cases seen with
      | file _ _ => exact .inl ⟨hblocked (by simp), _, bind_of_error _ (by rw [ofFiles_eq, hmakes]; rfl)⟩
      | link _ => exact .inl ⟨hblocked (by simp), _, bind_of_error _ (by rw [ofFiles_eq, hmakes]; rfl)⟩
      | dir =>
        cases hdist : s.top.look (l.distAt d) with
        | none =>
          exact .inr ⟨⟨hbuilt, .inr hseen, hdist⟩, publish_from hsite hfits h hmakes hseen (fun _ => rfl) hbuilt hdist
            (.refl h.plain)⟩
        | some seen =>
          refine .inl ⟨fun hpublishable => ?_, .destinationExists (l.versionReleaseDir / distName), ?_⟩
          · rw [hpublishable.free] at hdist
            cases hdist
          · rw [bind_of_ok _ (ofFiles_eq_ok.2 hmakes), bind_of_error _ (h.moveDist_blocked hsite hfits hseen hdist)]
  · refine .inl ⟨fun hpublishable => ?_, .missingInput (l.workDir / distName), ?_⟩
    · exact hdir (Store.isDir_of_look isName_dist (h.finds_built hsite hfits) (by decide) hpublishable.built)
    · rw [Staging.publishDist, run_bind, require_eq, if_neg hdir]

end Working

end Layout

/-! ## Before a release is built -/

namespace Job

variable {j : Job σ} {s t : Session σ} {d : List Name}

/-- Makes the output directories and the working directory. -/
def begin (j : Job σ) : Run σ Unit := do
  j.makeOutputDirs
  Run.ofWork (requireNoWorkDir j.layout)
  Run.ofFiles (Files.makeDir j.layout.workDir.bytes)

/-- Publishes the distributions and removes the working directory. -/
def publish (j : Job σ) : Run σ Path := do
  let dist ← Run.ofWork (Staging.publishDist j.layout.workDir j.layout.versionReleaseDir)
  Run.ofFiles (Files.removeTree j.layout.workDir.bytes)
  j.progress (Progress.released j.layout.version dist)
  pure dist

/-- A release in its working directory. -/
def buildAndPublish (j : Job σ) : Run σ Outcome := do
  let archive ← j.build j.layout.workDir
  let dist ← j.publish
  pure ⟨archive, some dist⟩

/-- A release up to its working directory. -/
def prepare (e : Executor σ) (r : Request) (root : Path) (label : Label) : Run σ (Job σ) := do
  let layout : Layout := ⟨root, r.version, label⟩
  Run.ofWork (requireNoWorkDir layout)
  let config ← Run.ofStore (Config.load · root)
  let j : Job σ := ⟨e, config, layout, r.sourceDir, r.blenderDir, r.quiet⟩
  j.progress (Progress.start r.mode r.version)
  j.begin
  pure j

theorem package_release_eq (e : Executor σ) {r : Request} (hmode : r.mode = .release) (root : Path) (label : Label) :
    package e r root label = (do
      let j ← prepare e r root label
      j.buildAndPublish) := by
  simp only [package, run, hmode, release, releaseIn, prepare, begin, build, publish, buildAndPublish, bind_assoc,
    pure_bind]

end Job

namespace Job

variable {j : Job σ} {s t : Session σ} {d : List Name}

/-- A release that has its working directory, in a checkout with output directories. -/
structure Begun (l : Layout) (s base : Store) (d : List Name) (t : Store) : Prop where
  makes : l.MakesOutputDirs s base
  grows : Files.GrowsIn (Layout.OutputPlace s l.root) s base
  site : l.Site d base
  store : t = l.entered d base

theorem requireNoWorkDir_of_present {l : Layout} {s : Store} (h : s.present l.workDir.bytes = true) :
    requireNoWorkDir l s = (.error (.workDirExists l.workDir), s) := by
  rw [requireNoWorkDir, require_eq, h]
  rfl

theorem requireNoWorkDir_of_free {l : Layout} {s : Store} (h : s.present l.workDir.bytes = false) :
    requireNoWorkDir l s = (.ok (), s) := by
  rw [requireNoWorkDir, require_eq, h]
  rfl

theorem begin_cases (hs : s.store.top.Plain) :
    (∃ failure t, j.begin s = (.error failure, t) ∧ t.history = s.history ∧
      Files.GrowsIn (Layout.OutputPlace s.store j.layout.root) s.store t.store) ∨
    ∃ base d t, j.begin s = (.ok (), t) ∧ t.history = s.history ∧ Begun j.layout s.store base d t.store := by
  have hgrows := makeOutputDirs_growsIn (j := j) hs
  have hhistory := Traced.history_eq j.makeOutputDirs_traced s
  have hname := Layout.isName_work j.layout.version
  cases hdirs : j.makeOutputDirs s with
  | mk result u =>
    rw [hdirs] at hgrows hhistory
    cases result with
    | error failure => exact .inl ⟨failure, u, bind_of_error _ hdirs, hhistory, hgrows⟩
    | ok _ =>
      have hmakes := makeOutputDirs_makes hdirs
      rw [begin, bind_of_ok _ hdirs]
      cases hfree : u.store.present j.layout.workDir.bytes with
      | true => exact .inl ⟨_, _, ofWork_bind_of_error _ (requireNoWorkDir_of_present hfree), hhistory, hgrows⟩
      | false =>
        rw [ofWork_bind_of_ok _ (requireNoWorkDir_of_free hfree), Run.ofFiles, ofWork_eq, ofFiles_eq]
        obtain ⟨fault, hfault⟩ | ⟨d, hfinds, hshort, hnone, hmade⟩ :=
          Files.makeDir_finds (s := u.store) (p := j.layout.root) hname
        · exact .inl ⟨_, _, by rw [Layout.workDir, hfault]; rfl, hhistory, hgrows⟩
        · obtain ⟨hraw, hrelease⟩ := hmakes.stand hs
          rw [← hfinds.reaches.eq_spelled hgrows.plain.linkFree] at hraw hrelease
          obtain ⟨made, hstore⟩ : ∃ made, made = j.layout.entered d u.store := ⟨_, rfl⟩
          rw [← Layout.entered, ← hstore] at hmade
          refine .inr ⟨u.store, d, { u with store := made }, ?_, hhistory, hmakes, hgrows,
            ⟨hgrows.plain, hfinds, look_eq_none.2 hnone, hraw, hrelease⟩, hstore⟩
          rw [Layout.workDir, hmade]
          rfl

/-- A release fails before it calls a tool, or it comes to build in its working directory. -/
theorem prepare_cases (e : Executor σ) (r : Request) (root : Path) (label : Label) (hs : s.store.top.Plain) :
    (∃ failure t, prepare e r root label s = (.error failure, t) ∧ t.history = s.history ∧
      Files.GrowsIn (Layout.OutputPlace s.store root) s.store t.store) ∨
    ∃ config base d t, Config.load s.store root = .ok config ∧
      prepare e r root label s =
        (.ok ⟨e, config, ⟨root, r.version, label⟩, r.sourceDir, r.blenderDir, r.quiet⟩, t) ∧
      t.history = s.history ∧ Begun ⟨root, r.version, label⟩ s.store base d t.store := by
  rw [prepare]
  dsimp only
  cases hfree : requireNoWorkDir ⟨root, r.version, label⟩ s.store with
  | mk result u =>
    have hu : u = s.store := by
      rw [requireNoWorkDir, require_eq] at hfree
      exact (outcome_inj.1 hfree).2.symm
    cases result with
    | error failure =>
      refine .inl ⟨failure, _, ofWork_bind_of_error _ hfree, rfl, ?_⟩
      rw [hu]
      exact .refl hs
    | ok _ =>
      rw [ofWork_bind_of_ok _ hfree, hu]
      cases hload : Config.load s.store root with
      | error failure => exact .inl ⟨failure, s, bind_of_error _ (by rw [ofStore_eq, hload]), rfl, .refl hs⟩
      | ok config =>
        have hloaded : Run.ofStore (σ := σ) (Config.load · root) s = (.ok config, s) := by
          rw [ofStore_eq, hload]
        obtain ⟨u, hsay, hstore, hhistory⟩ := Run.progress_cases r.quiet (Progress.start r.mode r.version) s
        rw [bind_of_ok _ hloaded, Job.progress, bind_of_ok _ hsay]
        rw [← hstore] at hs
        obtain ⟨failure, t, hbegin, hhistory', hgrows⟩ | ⟨base, d, t, hbegin, hhistory', hbegun⟩ :=
          begin_cases (j := ⟨e, config, ⟨root, r.version, label⟩, r.sourceDir, r.blenderDir, r.quiet⟩) hs
        · rw [hstore] at hgrows
          exact .inl ⟨failure, t, bind_of_error _ hbegin, hhistory'.trans hhistory, hgrows⟩
        · rw [hstore] at hbegun
          exact .inr ⟨config, base, d, t, rfl, bind_of_ok _ hbegin, hhistory'.trans hhistory, hbegun⟩

theorem Begun.working {l : Layout} {s base t : Store} (h : Begun l s base d t) : l.Working d base t :=
  h.store ▸ h.site.entered_working

/-- Publishing fails and nothing happens, or the release is finished. -/
theorem publish_cases {base : Store} (hsite : j.layout.Site d base) (hs : j.layout.Working d base s.store)
    (hfits : j.layout.archivePath.bytes.length < Route.lengthLimit) :
    (¬ j.layout.Publishable d s.store ∧ ∃ failure t, j.publish s = (.error failure, t) ∧ t.store = s.store) ∨
      j.layout.Publishable d s.store ∧ ∃ t, j.publish s = (.ok (j.layout.versionReleaseDir / Layout.distName), t) ∧
        j.layout.Finishes d s.store t.store := by
  obtain ⟨hnot, failure, hfailed⟩ | ⟨hpublishable, u, hpublished, hadds, hdist⟩ := hs.publishDist_cases hsite hfits
  · exact .inl ⟨hnot, failure, _, ofWork_bind_of_error _ hfailed, rfl⟩
  have hremoved := (hs.adds hsite hadds).removeTree hsite
  have hdropped := ChangesIn.drop hadds.plain d (Bytes.ofString ("tmp-" ++ j.layout.version.text))
  obtain ⟨t, hsay, hstore, -⟩ := Run.progress_cases j.quiet (Progress.released j.layout.version
    (j.layout.versionReleaseDir / Layout.distName))
    { s with store := u.drop d (Bytes.ofString ("tmp-" ++ j.layout.version.text)) }
  refine .inr ⟨hpublishable, t, ?_, ?_⟩
  · rw [publish, ofWork_bind_of_ok _ hpublished, Run.ofFiles,
      ofWork_bind_of_ok (s := { s with store := u }) _ (ofFiles_eq_ok.2 hremoved)]
    exact bind_of_ok _ hsay
  rw [hstore]
  constructor
  case adds => exact (hadds.mono (fun _ hp => hp.isPrefix) fun _ => id).trans (.of_alters ⟨rfl, hdropped⟩)
  case cleared =>
    intro rest
    rw [Layout.workAt, List.append_assoc, List.singleton_append, Store.top_drop, look_drop]
  case dist =>
    intro rest
    rw [Store.top_drop, look_drop_elsewhere, hdist]
    exact Layout.not_workAt_of_releaseAt (Layout.releaseAt_isPrefix_distAt.trans (List.prefix_append _ _))

/-- Building and publishing in a working directory: a release that fails has only built, and one that does not
has published and removed the directory. -/
theorem buildAndPublish_cases {base : Store} (he : j.executor.WorksInside) (hsite : j.layout.Site d base)
    (hs : j.layout.Working d base s.store) :
    (∃ failure t, j.buildAndPublish s = (.error failure, t) ∧ Builds j.layout d s.store t.store) ∨
      ∃ outcome t, j.buildAndPublish s = (.ok outcome, t) ∧ Releases j.layout d s.store t.store := by
  have hb := build_builds hs.plain (hs.spelled hsite) he
  cases hbuild : j.build j.layout.workDir s with
  | mk result u =>
    rw [hbuild] at hb
    cases result with
    | error failure => exact .inl ⟨failure, u, bind_of_error _ hbuild, hb⟩
    | ok path =>
      obtain ⟨-, hfits⟩ := build_eq_ok hbuild
      rw [buildAndPublish, bind_of_ok _ hbuild]
      obtain ⟨-, failure, t, hfailed, hstore⟩ | ⟨-, t, hpublished, hfinishes⟩ :=
        publish_cases hsite (hs.builds hsite hb) hfits
      · exact .inl ⟨failure, t, bind_of_error _ hfailed, hstore ▸ hb⟩
      · have hbuilt : Releases j.layout d s.store u.store := .of_alters (hb.alters.mono fun _ =>
          Or.imp_left Inside.isPrefix)
        exact .inr ⟨_, t, bind_of_ok _ hpublished, hbuilt.trans (hfinishes.adds.mono (fun _ => .inl) fun _ => id)⟩

end Job

/-- How a release ends: it fails before it calls a tool, or in its working directory, or it is finished. -/
theorem package_release_cases {e : Executor σ} (he : e.WorksInside) {r : Request} (hmode : r.mode = .release)
    (root : Path) (label : Label) {s : Session σ} (hs : s.store.top.Plain) :
    (∃ failure t, package e r root label s = (.error failure, t) ∧ t.history = s.history ∧
      Files.GrowsIn (Layout.OutputPlace s.store root) s.store t.store) ∨
    ∃ base d begun, Job.Begun ⟨root, r.version, label⟩ s.store base d begun ∧
      ((∃ failure t, package e r root label s = (.error failure, t) ∧
          Builds ⟨root, r.version, label⟩ d begun t.store) ∨
        ∃ outcome t, package e r root label s = (.ok outcome, t) ∧
          Releases ⟨root, r.version, label⟩ d begun t.store) := by
  rw [Job.package_release_eq e hmode]
  obtain ⟨failure, t, hfailed, hhistory, hgrows⟩ | ⟨config, base, d, t, -, hprepared, -, hbegun⟩ :=
    Job.prepare_cases e r root label hs
  · exact .inl ⟨failure, t, bind_of_error _ hfailed, hhistory, hgrows⟩
  · refine .inr ⟨base, d, t.store, hbegun, ?_⟩
    rw [bind_of_ok _ hprepared]
    exact Job.buildAndPublish_cases he hbegun.site hbegun.working

/-- A release brings no link into a tree without links. -/
theorem package_release_plain {e : Executor σ} (he : e.WorksInside) {r : Request} (hmode : r.mode = .release)
    (root : Path) (label : Label) {s : Session σ} (hs : s.store.top.Plain) :
    (package e r root label s).2.store.top.Plain := by
  obtain ⟨failure, t, hrun, -, hgrows⟩ | ⟨base, d, begun, -, ⟨failure, t, hrun, hbuilds⟩ |
    ⟨outcome, t, hrun, hreleases⟩⟩ := package_release_cases he hmode root label hs
  · rw [hrun]
    exact hgrows.plain
  · rw [hrun]
    exact hbuilds.plain
  · rw [hrun]
    exact Store.AltersIn.plain hreleases

end StubRelease
