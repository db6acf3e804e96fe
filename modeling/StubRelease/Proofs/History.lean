/-
# StubRelease.Proofs.History -- runs one after the other

Any number of runs, of any versions and in both modes, start in one clean checkout, each with imitated
tools. Main statement: how a run ends and which calls it makes follows from the runs before it, and from
nothing about them but how often its version was released and whether a development install came through
(`outcome_of_every_run`). What one run leaves is said for each mode, and the histories follow by
induction. A root that is too long for the paths of a run is refused before any call is made.
-/
import Mathlib.Data.List.Basic
import StubRelease.Proofs.Checkout
import StubRelease.Proofs.Publication

namespace StubRelease

open Sequence Node
open Imitation (outName packageName entryNames entryTexts distName)

variable {base s t : Store} {d : List Name} {ledger : Ledger}

/-! ## What a run leaves -/

/-- What is left when the distributions of a release are published, or others were found published. -/
structure HasPublished (l : Layout) (d : List Name) (s t : Store) : Prop where
  edited : s.EditedIn (fun p => Below d [Bytes.ofString ("tmp-" ++ l.version.text)] p ∨
    Below (d ++ [Bytes.ofString Layout.rawModulesName]) [Bytes.ofString l.archiveFileName] p ∨
    Below (d ++ [Bytes.ofString Layout.releaseName]) [Bytes.ofString l.version.text] p) t
  archives : ∀ name, t.top.look (d ++ [Bytes.ofString Layout.rawModulesName] ++ [name]) ≠ some .dir
  version : t.top.look (d ++ [Bytes.ofString Layout.releaseName] ++ [Bytes.ofString l.version.text]) =
    some .dir
  dist : t.top.look (d ++ [Bytes.ofString Layout.releaseName] ++ [Bytes.ofString l.version.text] ++
    [distName]) = some .dir

/-- What is below one entry of a directory is below no entry of another one. -/
theorem Below.not_of_sibling {a b : Name} (h : a ≠ b) {names p : List Name} (hp : d ++ [a] <+: p) :
    ¬ Below (d ++ [b]) names p := by
  intro hbelow
  exact h (entry_isPrefix_inj hp hbelow.inside.isPrefix)

/-- An entry of a directory is below none of its own entries. -/
theorem Below.not_self {names : List Name} : ¬ Below d names d := by
  intro hbelow
  exact not_inside_self _ hbelow.inside

namespace Job.HasBuilt

variable {l : Layout} {u : Store}

/-- Building edits the entries that runs make. -/
theorem editedIn (h : HasBuilt l d s u) : s.EditedIn (Below d Layout.outputNames) u := by
  refine h.edited.mono fun p hp => ?_
  rcases hp with hp | hp
  · exact hp.mono (by simpa using Layout.mem_outputNames_work _)
  · exact .of_entry (by decide) hp.inside.isPrefix

/-- The release directory is as it was while a release is built. -/
theorem look_release (h : HasBuilt l d s u) {p : List Name}
    (hp : d ++ [Bytes.ofString Layout.releaseName] <+: p) : u.top.look p = s.top.look p := by
  have hwork := Layout.work_ne_release l.version
  refine h.edited.look _ ?_
  rintro (hbelow | hbelow)
  · exact Below.not_of_entry (by simpa using hwork.symm) hp hbelow
  · exact Below.not_of_sibling Layout.rawModules_ne_release.symm hp hbelow

variable (h : HasBuilt l d s u) (hpublished : u.EditedIn (fun p =>
    Below (d ++ [Bytes.ofString ("tmp-" ++ l.version.text)]) [distName] p ∨
      Below (d ++ [Bytes.ofString Layout.releaseName]) [Bytes.ofString l.version.text] p) t)

include h hpublished

/-- Publishing what was built. -/
theorem published
    (hversion : t.top.look (d ++ [Bytes.ofString Layout.releaseName] ++ [Bytes.ofString l.version.text]) = some .dir)
    (hdist : t.top.look (d ++ [Bytes.ofString Layout.releaseName] ++ [Bytes.ofString l.version.text] ++
      [distName]) = some .dir) : HasPublished l d s t := by
  refine ⟨?_, fun name => ?_, hversion, hdist⟩
  · refine (h.edited.mono fun p hp => hp.imp_right .inl).trans (hpublished.mono fun p hp => ?_)
    rcases hp with hp | hp
    · exact .inl (.of_entry List.mem_cons_self hp.inside.isPrefix)
    · exact .inr (.inr hp)
  · rw [hpublished.look]
    · exact h.archives name
    · have hraw : d ++ [Bytes.ofString Layout.rawModulesName] <+:
          d ++ [Bytes.ofString Layout.rawModulesName] ++ [name] := List.prefix_append _ _
      rintro (hp | hp)
      · exact Below.not_of_sibling (Layout.work_ne_rawModules _).symm hraw hp
      · exact Below.not_of_sibling Layout.rawModules_ne_release hraw hp

/-- The working directory is still there then. -/
theorem work_of_published : t.top.look (d ++ [Bytes.ofString ("tmp-" ++ l.version.text)]) = some .dir := by
  rw [hpublished.look, h.work]
  rintro (hp | hp)
  · exact Below.not_self hp
  · exact Below.not_of_sibling (Layout.work_ne_release _) List.prefix_rfl hp

end Job.HasBuilt

namespace HasPublished

variable {l : Layout}

/-- A release edits the entries that runs make. -/
theorem editedIn (h : HasPublished l d s t) : s.EditedIn (Below d Layout.outputNames) t := by
  refine h.edited.mono fun p hp => ?_
  rcases hp with hp | hp | hp
  · exact hp.mono (by simpa using Layout.mem_outputNames_work _)
  · exact .of_entry (by decide) hp.inside.isPrefix
  · exact .of_entry (by decide) hp.inside.isPrefix

/-- A release leaves no trace at other entries of the checkout. -/
theorem look_entry (h : HasPublished l d s t) {name : Name}
    (hwork : name ≠ Bytes.ofString ("tmp-" ++ l.version.text))
    (hraw : name ≠ Bytes.ofString Layout.rawModulesName) (hrelease : name ≠ Bytes.ofString Layout.releaseName) :
    t.top.look (d ++ [name]) = s.top.look (d ++ [name]) := by
  refine h.edited.look _ ?_
  rintro (hp | hp | hp)
  · exact Below.not_of_entry (by simpa using hwork) List.prefix_rfl hp
  · exact Below.not_of_sibling hraw List.prefix_rfl hp
  · exact Below.not_of_sibling hrelease List.prefix_rfl hp

theorem look_rawModules (h : HasPublished l d s t) :
    t.top.look (d ++ [Bytes.ofString Layout.rawModulesName]) =
      s.top.look (d ++ [Bytes.ofString Layout.rawModulesName]) := by
  have hwork := Layout.work_ne_rawModules l.version
  refine h.edited.look _ ?_
  rintro (hp | hp | hp)
  · exact Below.not_of_entry (by simpa using hwork.symm) List.prefix_rfl hp
  · exact Below.not_self hp
  · exact Below.not_of_sibling Layout.rawModules_ne_release List.prefix_rfl hp

/-- In the release directory a release is seen at its version's entry only. -/
theorem get?_release (h : HasPublished l d s t) {name : Name} (hname : name ≠ Bytes.ofString l.version.text)
    (rest : List Name) :
    t.top.get? (d ++ [Bytes.ofString Layout.releaseName] ++ name :: rest) =
      s.top.get? (d ++ [Bytes.ofString Layout.releaseName] ++ name :: rest) := by
  have hwork := Layout.work_ne_release l.version
  refine h.edited.get?_other (fun q hq hat => ?_) rest
  have hrelease : d ++ [Bytes.ofString Layout.releaseName] <+: q := (List.prefix_append _ _).trans hat
  rcases hq with hq | hq | hq
  · exact Below.not_of_entry (by simpa using hwork.symm) hrelease hq
  · exact Below.not_of_sibling Layout.rawModules_ne_release.symm hrelease hq
  · exact Below.not_of_entry (by simpa using hname) hat hq

/-- Removing the working directory takes nothing away that a release leaves elsewhere. -/
theorem drop (h : HasPublished l d s t) :
    HasPublished l d s (t.drop d (Bytes.ofString ("tmp-" ++ l.version.text))) := by
  have hedited := Store.EditedIn.drop t d (Bytes.ofString ("tmp-" ++ l.version.text))
  have hraw := Layout.work_ne_rawModules l.version
  have hrelease := Layout.work_ne_release l.version
  have hlook (a : Name) (ha : Bytes.ofString ("tmp-" ++ l.version.text) ≠ a) (rest : List Name) :
      (t.drop d (Bytes.ofString ("tmp-" ++ l.version.text))).top.look (d ++ [a] ++ rest) =
        t.top.look (d ++ [a] ++ rest) := by
    refine hedited.look _ (Below.not_of_entry ?_ (List.prefix_append _ _))
    simpa using ha.symm
  refine ⟨h.edited.trans (hedited.mono fun _ => .inl), fun name => ?_, ?_, ?_⟩
  · rw [hlook _ hraw]
    exact h.archives name
  · rw [hlook _ hrelease, h.version]
  · rw [List.append_assoc (d ++ _), hlook _ hrelease, ← List.append_assoc, h.dist]

end HasPublished

namespace Furnished

variable {l : Layout}

/-- The standing after a release: one release of its version more. -/
theorem published (h : Furnished base d ledger s) (hp : HasPublished l d s t)
    (hwork : t.top.look (d ++ [Bytes.ofString ("tmp-" ++ l.version.text)]) =
      if ledger.releases l.version + 1 < 2 then none else some .dir) :
    Standing base d (ledger.released l.version) t where
  edited := h.edited.trans hp.editedIn
  work v := by
    by_cases heq : v = l.version
    · rw [heq, hwork]
      simp [Ledger.released]
    · have hne : Bytes.ofString ("tmp-" ++ v.text) ≠ Bytes.ofString ("tmp-" ++ l.version.text) := by
        intro hsame
        have htext := Bytes.ofString_injective hsame
        exact heq (Version.text_injective (by simpa using htext))
      rw [hp.look_entry hne (Layout.work_ne_rawModules v) (Layout.work_ne_release v), h.work]
      simp [Ledger.released, heq]
  rawModules := .inr (hp.look_rawModules.trans h.rawModulesStands)
  archives := hp.archives
  releaseDir := .inr (look_eq_dir_of_below hp.version)
  shelf := h.shelf.published (fun _ hname rest => hp.get?_release hname rest) hp.version hp.dist

/-- The standing after a development install, or after one that found its package installed. -/
theorem staged (h : Furnished base d ledger s) (hstaged : Job.HasStaged l
      (d ++ [Bytes.ofString Layout.releaseName]) (d ++ [Bytes.ofString Layout.rawModulesName]) s t) :
    Standing base d ledger.developed t where
  edited := by
    refine h.edited.trans (hstaged.edited.mono fun p hp => ?_)
    rcases hp with hp | hp
    · exact .of_entry (by decide) hp.inside.isPrefix
    · exact .of_entry (by decide) hp.inside.isPrefix
  work v := by
    rw [hstaged.edited.look, h.work]
    · rfl
    · rintro (hp | hp)
      · exact Below.not_of_sibling (Layout.work_ne_release v) List.prefix_rfl hp
      · exact Below.not_of_sibling (Layout.work_ne_rawModules v) List.prefix_rfl hp
  rawModules := by
    rw [hstaged.edited.look]
    · exact h.rawModules
    · rintro (hp | hp)
      · exact Below.not_of_sibling Layout.rawModules_ne_release List.prefix_rfl hp
      · exact Below.not_self hp
  archives := hstaged.archives
  releaseDir := .inr (look_eq_dir_of_below ((hstaged.generated packageName (by decide)).trans rfl))
  shelf := h.shelf.staged (not_entry_isPrefix_of_ne Layout.rawModules_ne_release.symm)
    (not_entry_isPrefix_of_ne Layout.rawModules_ne_release) hstaged

end Furnished

/-- A release that is refused at once is counted, and changes nothing. -/
theorem Standing.refused (h : Standing base d ledger s) {v : Version} (hmany : ¬ ledger.releases v < 2) :
    Standing base d (ledger.released v) s := by
  have hfew (u : Version) : (ledger.released v).releases u < 2 ↔ ledger.releases u < 2 := by
    by_cases heq : u = v
    · subst heq
      simp only [Ledger.released, if_pos]
      omega
    · simp [Ledger.released, heq]
  have hnone (u : Version) : (ledger.released v).releases u = 0 ↔ ledger.releases u = 0 := by
    by_cases heq : u = v
    · subst heq
      simp only [Ledger.released, if_pos]
      omega
    · simp [Ledger.released, heq]
  refine { h with work := fun u => ?_, shelf := { h.shelf with dist := fun u => ?_ } }
  · simp only [hfew, h.work]
  · simp only [hnone, h.shelf.dist]

/-! ## One run -/

/-- How a run ends; `first` is the entry that a development install would move up first. -/
def Ledger.result (ledger : Ledger) (first : String) (l : Layout) (mode : Mode) : Except Failure Outcome :=
  if ledger.releases l.version < 2 then
    match mode with
    | .release =>
      let dist := l.versionReleaseDir / Layout.distName
      if ledger.releases l.version = 0 then .ok ⟨l.archivePath, some dist⟩
      else .error (.destinationExists dist)
    | .develop =>
      if ledger.installed then .error (.destinationExists (l.releaseDir / first))
      else .ok ⟨l.archivePath, none⟩
  else .error (.workDirExists l.workDir)

/-- The calls a run makes. -/
def Ledger.calls (ledger : Ledger) (r : Request) (root : Path) : List Call :=
  let plan := r.plan (Config.standard.resolvedAgainst root) root
  if ledger.releases r.version < 2 then
    match r.mode with
    | .release => plan
    | .develop => if ledger.installed then plan.take 1 else plan
  else []

namespace Ledger

variable {first : String} {l : Layout}

theorem result_of_many (hmany : ¬ ledger.releases l.version < 2) (mode : Mode) :
    ledger.result first l mode = .error (.workDirExists l.workDir) :=
  if_neg hmany

theorem result_of_unreleased (hnone : ledger.releases l.version = 0) :
    ledger.result first l .release = .ok ⟨l.archivePath, some (l.versionReleaseDir / Layout.distName)⟩ := by
  simp [result, hnone]

theorem result_of_released (hone : ledger.releases l.version = 1) :
    ledger.result first l .release = .error (.destinationExists (l.versionReleaseDir / Layout.distName)) := by
  simp [result, hone]

theorem result_of_not_installed (hfew : ledger.releases l.version < 2) (hnot : ledger.installed = false) :
    ledger.result first l .develop = .ok ⟨l.archivePath, none⟩ := by
  simp [result, hfew, hnot]

theorem result_of_installed (hfew : ledger.releases l.version < 2) (hinstalled : ledger.installed = true) :
    ledger.result first l .develop = .error (.destinationExists (l.releaseDir / first)) := by
  simp [result, hfew, hinstalled]

end Ledger

/-- A run that is not refused at once makes calls. -/
theorem Ledger.calls_ne_nil {r : Request} (hfew : ledger.releases r.version < 2) (root : Path) :
    ledger.calls r root ≠ [] := by
  rw [calls, if_pos hfew, Request.plan]
  cases r.mode with
  | release => simp
  | develop => cases ledger.installed <;> simp

/-- What is remembered after a run. -/
def Ledger.after (ledger : Ledger) (r : Request) : Ledger :=
  match r.mode with
  | .release => ledger.released r.version
  | .develop => if ledger.releases r.version < 2 then ledger.developed else ledger

namespace Job

variable {order : Listing.Order} {j : Job (List Call)} (hj : j.executor = Imitation.executor none order)
  (hconfig : j.config = Config.standard.resolvedAgainst j.layout.root)
  (hbase : base.CleanCheckout j.layout.root d) (hroot : j.layout.root.bytes.length ≤ Layout.rootLimit)
  (hlabel : (Bytes.ofString j.layout.label.text).length ≤ 229)

include hj hconfig hbase hroot hlabel

/-- What is built is published if nothing is published yet. -/
theorem releaseIn_ends (h : Furnished base d ledger s) :
    Run.Ends (j.releaseIn j.layout.workDir)
      (s.put d (Bytes.ofString ("tmp-" ++ j.layout.version.text)) .emptyDir)
      (if ledger.releases j.layout.version = 0
        then .ok ⟨j.layout.archivePath, some (j.layout.versionReleaseDir / Layout.distName)⟩
        else .error (.destinationExists (j.layout.versionReleaseDir / Layout.distName)))
      [.generator j.config .release j.layout.version j.sourceDir j.blenderDir j.layout.workDir,
        .readme j.config j.layout.workDir, .setup j.config .sdist j.layout.workDir,
        .setup j.config .bdistWheel j.layout.workDir] fun t =>
          HasPublished j.layout d s t ∧
            t.top.look (d ++ [Bytes.ofString ("tmp-" ++ j.layout.version.text)]) = some .dir := by
  have hwork := Layout.work_ne_release j.layout.version
  have hversion := Layout.isName_version j.layout.version
  have hlength : (Bytes.ofString j.layout.version.text).length < 50 := by cases j.layout.version <;> decide
  rw [releaseIn_eq]
  refine (build_ends hj hconfig hbase hroot hlabel h).bind_last fun u hu => ?_
  -- what was built is beside the release directory
  have hedited := h.edited.trans hu.editedIn
  have hsame (p : List Name) (hp : d ++ [Bytes.ofString Layout.releaseName] <+: p) := hu.look_release hp
  have hhouse := hbase.houses hroot hedited (Layout.isName_work _) (Layout.mem_outputNames_work _) hu.work
  have hrelease := hbase.houses hroot hedited Layout.isName_release (by decide)
    (by rw [hsame _ List.prefix_rfl, h.releaseStands])
  have hfree := h.shelf.dist j.layout.version
  rw [← hsame _ (by rw [List.append_assoc]; exact List.prefix_append _ _)] at hfree
  obtain ⟨t, hpublish, hpublished, hstands, hdist⟩ := Staging.publishDist_ends hhouse hrelease hversion hlength
    (not_entry_isPrefix_of_ne hwork) (not_entry_isPrefix_of_ne hwork.symm) hu.dist
    (by rw [hsame _ (List.prefix_append _ _)]; exact h.shelf.version _) hfree
  have hdone := hu.published hpublished hstands hdist
  have hleft := hu.work_of_published hpublished
  by_cases hfree : ledger.releases j.layout.version = 0
  · rw [if_pos hfree] at hpublish ⊢
    exact .ofWork_bind hpublish (.pure ⟨hdone, hleft⟩)
  · rw [if_neg hfree] at hpublish ⊢
    exact .bind_error (.ofWork hpublish ⟨hdone, hleft⟩)

/-- A release of a version that was released less than twice. -/
theorem release_ends (h : Standing base d ledger s) (hfew : ledger.releases j.layout.version < 2) (first : String) :
    Run.Ends j.release s (ledger.result first j.layout .release)
      [.generator j.config .release j.layout.version j.sourceDir j.blenderDir j.layout.workDir,
        .readme j.config j.layout.workDir, .setup j.config .sdist j.layout.workDir,
        .setup j.config .bdistWheel j.layout.workDir] (Standing base d (ledger.released j.layout.version)) := by
  have hname := Layout.isName_work j.layout.version
  have hshort := Layout.length_work_le j.layout.version
  refine (makeOutputDirs_ends hbase hroot h).bind_silent fun u hu => ?_
  have hfinds := hbase.finds hroot hu.edited hname hshort
  have hnone : u.top.look (d ++ [Bytes.ofString ("tmp-" ++ j.layout.version.text)]) = none := by
    rw [hu.work, if_pos hfew]
  have hrequire : requireNoWorkDir j.layout u = (.ok (), u) :=
    require_eq_ok.2 ⟨by rw [Layout.workDir, Store.not_present_of_look hname hfinds hshort hnone]; rfl, rfl⟩
  have hmake := Files.makeDir_of_finds hname hfinds hshort
  rw [look_eq_none.1 hnone] at hmake
  refine .ofWork_bind hrequire (.ofFiles_bind hmake ?_)
  have hin := releaseIn_ends hj hconfig hbase hroot hlabel hu
  by_cases hfree : ledger.releases j.layout.version = 0
  · have hresult : ledger.result first j.layout .release =
        .ok ⟨j.layout.archivePath, some (j.layout.versionReleaseDir / Layout.distName)⟩ := by
      simp [Ledger.result, hfree]
    rw [if_pos hfree] at hin
    rw [hresult]
    refine hin.bind_last ?_
    rintro v ⟨hv, hleft⟩
    have hedited := hu.edited.trans hv.editedIn
    have hemptied : (v.put d (Bytes.ofString ("tmp-" ++ j.layout.version.text)) .emptyDir).Reaches
        j.layout.root d := by
      refine hbase.reaches_of_editedIn (hedited.trans ((Store.EditedIn.put v d _ _).mono fun p hp => ?_))
      exact hp.mono (by simpa using Layout.mem_outputNames_work _)
    have hremove := Files.removeTree_of_finds hname (hbase.finds hroot hedited hname hshort) hshort hleft hemptied
    refine .ofFiles_bind hremove (.progress_bind _ _ (.pure (hu.published hv.drop ?_)))
    rw [hfree, if_pos (by decide)]
    exact look_drop _ _ _ []
  · have hresult : ledger.result first j.layout .release =
        .error (.destinationExists (j.layout.versionReleaseDir / Layout.distName)) := by
      simp [Ledger.result, hfree, hfew]
    rw [if_neg hfree] at hin
    rw [hresult]
    refine .bind_error (hin.imp ?_)
    rintro v ⟨hv, hleft⟩
    refine hu.published hv ?_
    rw [hleft, if_neg (by omega)]

/-- A development install stages what it generates, or finds it staged and stops. -/
theorem develop_ends (h : Standing base d ledger s) (hfew : ledger.releases j.layout.version < 2) :
    ∃ first ∈ entryTexts, Run.Ends j.develop s (ledger.result first j.layout .develop)
      (if ledger.installed
        then [.generator j.config .develop j.layout.version j.sourceDir j.blenderDir j.layout.releaseDir]
        else [.generator j.config .develop j.layout.version j.sourceDir j.blenderDir j.layout.releaseDir,
          .readme j.config j.layout.releaseDir, .setup j.config .develop j.layout.releaseDir])
      (Standing base d ledger.developed) := by
  have hapart := Layout.rawModules_ne_release
  have hdown := not_entry_isPrefix_of_ne (d := d) hapart.symm
  have hup := not_entry_isPrefix_of_ne (d := d) hapart
  obtain ⟨first, hfirst, rest, hlisting⟩ :=
    Staging.arrange_entryNames j.executor.order (Staging.generatedDir j.layout.releaseDir).bytes
  refine ⟨first, hfirst, (makeOutputDirs_ends hbase hroot h).bind_silent fun u hu => ?_⟩
  have hhouse := hbase.houses hroot hu.edited Layout.isName_release (by decide) hu.releaseStands
  have hraw := hbase.houses hroot hu.edited Layout.isName_rawModules (by decide) hu.rawModulesStands
  have hgenerated := hu.shelf.generated
  cases hinstalled : ledger.installed with
  | true =>
    simp only [hinstalled, if_true] at hgenerated
    rw [Ledger.result_of_installed hfew hinstalled, if_pos rfl]
    have hblocked := generateAndStage_blocked hj .develop hhouse hraw hlabel hdown hup hu.shelf.stageable
      hu.archives hgenerated hlisting
    exact .bind_error (hblocked.imp fun v hv => hu.staged hv)
  | false =>
    simp only [hinstalled, Bool.false_eq_true, if_false] at hgenerated
    rw [Ledger.result_of_not_installed hfew hinstalled, if_neg (by decide)]
    have hstaged := generateAndStage_ends hj .develop hhouse hraw hlabel hdown hup
      (hbase.supplied hroot hu.edited hconfig) hu.shelf.stageable hu.archives hgenerated
    refine hstaged.bind fun v hv => ?_
    refine (runSetup_installs hj).bind_last fun w hw => ?_
    rw [hw]
    exact .progress_bind _ _ (.pure (hu.staged hv))

end Job

/-- A run of a version that was released twice is refused before it reads its settings. -/
theorem package_refused {r : Request} {root : Path} {label : Label} (hbase : base.CleanCheckout root d)
    (hroot : root.bytes.length ≤ Layout.rootLimit) (h : Standing base d ledger s)
    (hmany : ¬ ledger.releases r.version < 2) (order : Listing.Order) (first : String) :
    Run.Ends (package (Imitation.executor none order) r root label) s
      (ledger.result first ⟨root, r.version, label⟩ r.mode)
      (ledger.calls r root) (Standing base d (ledger.after r)) := by
  have hname := Layout.isName_work r.version
  have hshort := Layout.length_work_le r.version
  have hwork := h.work r.version
  rw [if_neg hmany] at hwork
  have hrequire : Job.requireNoWorkDir ⟨root, r.version, label⟩ s =
      (.error (.workDirExists (Layout.workDir ⟨root, r.version, label⟩)), s) := by
    rw [Job.requireNoWorkDir, require_eq, Layout.workDir,
      Store.present_of_look hname (hbase.finds hroot h.edited hname hshort) hshort hwork (by simp)]
    rfl
  have hcalls : ledger.calls r root = [] := if_neg hmany
  rw [package, Ledger.result_of_many hmany, hcalls]
  refine .bind_error (.ofWork hrequire ?_)
  cases hmode : r.mode with
  | release =>
    simp only [Ledger.after, hmode]
    exact h.refused hmany
  | develop =>
    simp only [Ledger.after, hmode, if_neg hmany]
    exact h

/-- How a run ends, and what it leaves, between any two others. -/
theorem package_ends {r : Request} {root : Path} {label : Label} (hbase : base.CleanCheckout root d)
    (hroot : root.bytes.length ≤ Layout.rootLimit) (hlabel : (Bytes.ofString label.text).length ≤ 229)
    (h : Standing base d ledger s) (order : Listing.Order) :
    ∃ first ∈ entryTexts, Run.Ends (package (Imitation.executor none order) r root label) s
      (ledger.result first ⟨root, r.version, label⟩ r.mode) (ledger.calls r root) (Standing base d (ledger.after r)) := by
  have hname := Layout.isName_work r.version
  have hshort := Layout.length_work_le r.version
  have hfinds := hbase.finds hroot h.edited hname hshort
  have hwork := h.work r.version
  by_cases hfew : ledger.releases r.version < 2
  · rw [if_pos hfew] at hwork
    have hrequire : Job.requireNoWorkDir ⟨root, r.version, label⟩ s = (.ok (), s) :=
      require_eq_ok.2 ⟨by rw [Layout.workDir, Store.not_present_of_look hname hfinds hshort hwork]; rfl, rfl⟩
    have hload : Run.Ends (σ := List Call) (Run.ofStore (Config.load · root)) s
        (.ok (Config.standard.resolvedAgainst root)) [] (· = s) := .ofStore (hbase.load hroot h.edited) rfl
    -- a run that is not refused is what its mode makes of it
    have hstarts {first : String} (hruns : Run.Ends (Job.run ⟨Imitation.executor none order,
        Config.standard.resolvedAgainst root, ⟨root, r.version, label⟩, r.sourceDir, r.blenderDir, r.quiet⟩ r.mode) s
        (ledger.result first ⟨root, r.version, label⟩ r.mode) (ledger.calls r root)
        (Standing base d (ledger.after r))) : Run.Ends (package (Imitation.executor none order) r root label) s
        (ledger.result first ⟨root, r.version, label⟩ r.mode) (ledger.calls r root)
        (Standing base d (ledger.after r)) := by
      rw [package]
      refine .ofWork_bind hrequire (hload.bind_silent fun u hu => ?_)
      subst hu
      exact hruns
    obtain ⟨mode, version, sourceDir, blenderDir, quiet⟩ := r
    cases mode with
    | release =>
      have hcalls : ledger.calls ⟨.release, version, sourceDir, blenderDir, quiet⟩ root =
          Request.plan ⟨.release, version, sourceDir, blenderDir, quiet⟩
            (Config.standard.resolvedAgainst root) root := by
        simp only [Ledger.calls, if_pos hfew]
      refine ⟨"bpy", List.mem_cons_self, hstarts (.progress_bind _ _ ?_)⟩
      rw [hcalls]
      exact Job.release_ends rfl rfl hbase hroot hlabel h hfew _
    | develop =>
      obtain ⟨first, hfirst, hdone⟩ := Job.develop_ends (j := ⟨Imitation.executor none order,
        Config.standard.resolvedAgainst root, ⟨root, version, label⟩, sourceDir, blenderDir, quiet⟩) rfl rfl hbase
        hroot hlabel h hfew
      have hafter : ledger.after ⟨.develop, version, sourceDir, blenderDir, quiet⟩ = ledger.developed := by
        simp only [Ledger.after, if_pos hfew]
      have hcalls : ledger.calls ⟨.develop, version, sourceDir, blenderDir, quiet⟩ root =
          if ledger.installed then
            (Request.plan ⟨.develop, version, sourceDir, blenderDir, quiet⟩
              (Config.standard.resolvedAgainst root) root).take 1
          else Request.plan ⟨.develop, version, sourceDir, blenderDir, quiet⟩
            (Config.standard.resolvedAgainst root) root := by
        simp only [Ledger.calls, if_pos hfew]
      refine ⟨first, hfirst, hstarts (.progress_bind _ _ ?_)⟩
      rw [hcalls, hafter]
      exact hdone
  · exact ⟨"bpy", List.mem_cons_self, package_refused hbase hroot h hfew order _⟩

/-! ## Histories -/

/-- How one run of a history is started: what is asked for, under which label, in which order directories are listed,
and where its progress goes. -/
structure Start where
  request : Request
  label : Label
  order : Listing.Order
  stderr : Sink
  shared : Bool

/-- A run that was made, and the calls it has made. -/
structure PastRun where
  start : Start
  result : Except Failure Outcome
  calls : List Call

namespace PastRun

/-- A release of a version, whether it succeeded or not. -/
def isReleaseOf (v : Version) (run : PastRun) : Bool :=
  run.start.request.mode == .release && run.start.request.version == v

/-- A development install that succeeded. -/
def isInstalled (run : PastRun) : Bool := run.start.request.mode == .develop && run.result.isOk

def layout (root : Path) (run : PastRun) : Layout := ⟨root, run.start.request.version, run.start.label⟩

end PastRun

/-- Runs one after the other over one root. Each has imitated tools of its own. -/
def runAll (root : Path) (s : Store) : List Start → List PastRun
  | [] => []
  | start :: rest =>
    let ended := package (Imitation.executor none start.order) start.request root start.label
      (.start s [] start.stderr start.shared)
    ⟨start, ended.1, ended.2.history.map (·.call)⟩ :: runAll root ended.2.store rest

theorem length_runAll (root : Path) (s : Store) (starts : List Start) :
    (runAll root s starts).length = starts.length := by
  induction starts generalizing s with
  | nil => rfl
  | cons start rest ih =>
    rw [runAll, List.length_cons, List.length_cons, ih]

/-- What is remembered of past runs. -/
def Ledger.ofRuns (past : List PastRun) : Ledger where
  releases v := past.countP (PastRun.isReleaseOf v)
  installed := past.any PastRun.isInstalled

/-- What is remembered of a run follows from what was remembered before it. -/
theorem Ledger.ofRuns_concat {root : Path} {past : List PastRun} {run : PastRun} {first : String}
    (hresult : run.result = (ofRuns past).result first (run.layout root) run.start.request.mode) :
    ofRuns (past ++ [run]) = (ofRuns past).after run.start.request := by
  have hofRuns : ofRuns (past ++ [run]) =
      ⟨fun v => (ofRuns past).releases v + if run.isReleaseOf v then 1 else 0,
        (ofRuns past).installed || run.isInstalled⟩ := by
    simp [ofRuns, List.countP_append, List.countP_singleton]
  rw [hofRuns]
  cases hmode : run.start.request.mode with
  | release =>
    have hnot : run.isInstalled = false := by simp [PastRun.isInstalled, hmode]
    simp only [after, hmode, released, hnot, Bool.or_false]
    congr 1
    funext v
    by_cases hv : v = run.start.request.version
    · simp [PastRun.isReleaseOf, hmode, hv]
    · simp [PastRun.isReleaseOf, hmode, hv, Ne.symm hv]
  | develop =>
    have hnot (v : Version) : run.isReleaseOf v = false := by simp [PastRun.isReleaseOf, hmode]
    have hinstalled : run.isInstalled = run.result.isOk := by simp [PastRun.isInstalled, hmode]
    have hsame : Ledger.mk (fun v => (ofRuns past).releases v) true = (ofRuns past).developed := rfl
    rw [hmode] at hresult
    simp only [after, hmode, hnot, hinstalled, hresult, Bool.false_eq_true, if_false, Nat.add_zero]
    by_cases hfew : (ofRuns past).releases run.start.request.version < 2
    · rw [if_pos hfew]
      cases hpast : (ofRuns past).installed with
      | true => exact hsame
      | false =>
        rw [result_of_not_installed hfew hpast]
        exact hsame
    · rw [if_neg hfew, result_of_many hfew]
      cases hpast : (ofRuns past).installed <;> simp [Except.isOk, Except.toBool, ← hpast]

/-- Every run of a history ends, and calls, as what is remembered of the earlier ones says. -/
theorem result_of_mem_runAll {root : Path} (hbase : base.CleanCheckout root d)
    (hroot : root.bytes.length ≤ Layout.rootLimit) {starts : List Start}
    (hlabels : ∀ start ∈ starts, (Bytes.ofString start.label.text).length ≤ 229) {past : List PastRun}
    (h : Standing base d (.ofRuns past) s) {earlier later : List PastRun} {run : PastRun}
    (hruns : runAll root s starts = earlier ++ run :: later) :
    (∃ first ∈ entryTexts,
      run.result = (Ledger.ofRuns (past ++ earlier)).result first (run.layout root) run.start.request.mode) ∧
      run.calls = (Ledger.ofRuns (past ++ earlier)).calls run.start.request root := by
  induction starts generalizing s past earlier with
  | nil => simp [runAll] at hruns
  | cons start rest ih =>
    have hlabel := hlabels start List.mem_cons_self
    obtain ⟨name, hname, hends⟩ := package_ends hbase hroot hlabel h start.order (r := start.request)
    obtain ⟨t, hrun, hcalls, ht⟩ := hends (.start s [] start.stderr start.shared) rfl
    simp only [runAll, hrun] at hruns
    cases earlier with
    | nil =>
      obtain ⟨rfl, -⟩ := List.cons_eq_cons.1 hruns
      rw [List.append_nil]
      exact ⟨⟨name, hname, rfl⟩, by simpa [Session.start] using hcalls⟩
    | cons first earlier =>
      obtain ⟨hfirst, hmore⟩ := List.cons_eq_cons.1 hruns
      have hnext : Standing base d (.ofRuns (past ++ [first])) t.store := by
        have hsame : first.result =
            (Ledger.ofRuns past).result name (first.layout root) first.start.request.mode := by
          rw [← hfirst]
          rfl
        rw [Ledger.ofRuns_concat hsame, ← hfirst]
        exact ht
      have hlast := ih (fun other hother => hlabels other (List.mem_cons_of_mem _ hother)) hnext hmore
      rwa [List.append_assoc, List.singleton_append] at hlast

/-- A clean checkout stands as after no run at all. -/
theorem Store.CleanCheckout.standing {root : Path} (h : base.CleanCheckout root d) :
    Standing base d (.ofRuns []) base := by
  have hnone (a : Name) (ha : a ∈ Layout.outputNames) (rest : List Name) :
      base.top.look (d ++ [a] ++ rest) = none := by
    cases rest with
    | nil => simpa using h.unused a ha
    | cons name rest => exact look_below_of_not_dir (by simp [h.unused a ha]) name rest
  have hrelease : Bytes.ofString Layout.releaseName ∈ Layout.outputNames := by decide
  refine ⟨.refl base, fun v => ?_, .inl (h.unused _ (by decide)), fun name => ?_, .inl (h.unused _ hrelease),
    ⟨⟨.inl (hnone _ hrelease [_]), fun l => hnone _ hrelease [_], fun name _ => .inl (hnone _ hrelease [_])⟩,
      fun x _ => hnone _ hrelease [x], fun v => .inl (hnone _ hrelease [_]), fun v => ?_⟩⟩
  · exact h.unused _ (Layout.mem_outputNames_work v)
  · rw [hnone _ (by decide) [name]]
    simp
  · rw [List.append_assoc]
    exact hnone _ hrelease _

/-- How a run has to end after the earlier runs of its history. -/
structure PastRun.FollowsFrom (root : Path) (earlier : List PastRun) (run : PastRun) : Prop where
  /-- Nothing is called where the working directory of the version was left. -/
  refused : run.result = .error (.workDirExists (run.layout root).workDir) ∧ run.calls = [] ↔
    2 ≤ earlier.countP (PastRun.isReleaseOf run.start.request.version)
  released : run.start.request.mode = .release →
    earlier.countP (PastRun.isReleaseOf run.start.request.version) < 2 →
      ((∃ outcome, run.result = .ok outcome) ↔
        earlier.countP (PastRun.isReleaseOf run.start.request.version) = 0)
  /-- A second release is refused when everything is built. -/
  republished : run.start.request.mode = .release →
    earlier.countP (PastRun.isReleaseOf run.start.request.version) = 1 →
      run.result = .error (.destinationExists ((run.layout root).versionReleaseDir / Layout.distName)) ∧
        run.calls = run.start.request.plan (Config.standard.resolvedAgainst root) root
  installed : run.start.request.mode = .develop →
    earlier.countP (PastRun.isReleaseOf run.start.request.version) < 2 →
      ((∃ outcome, run.result = .ok outcome) ↔ ¬ ∃ other ∈ earlier, other.isInstalled)
  /-- A second install is refused when the modules are generated. -/
  reinstalled : run.start.request.mode = .develop →
    earlier.countP (PastRun.isReleaseOf run.start.request.version) < 2 →
      (∃ other ∈ earlier, other.isInstalled) →
        (∃ name ∈ entryTexts, run.result = .error (.destinationExists ((run.layout root).releaseDir / name))) ∧
          run.calls = (run.start.request.plan (Config.standard.resolvedAgainst root) root).take 1

/-- Every run of every history in a clean checkout ends as the earlier runs say. -/
theorem outcome_of_every_run {root : Path} (hbase : base.CleanCheckout root d)
    (hroot : root.bytes.length ≤ Layout.rootLimit) {starts : List Start}
    (hlabels : ∀ start ∈ starts, (Bytes.ofString start.label.text).length ≤ 229)
    {earlier later : List PastRun} {run : PastRun} (hruns : runAll root base starts = earlier ++ run :: later) :
    run.FollowsFrom root earlier := by
  obtain ⟨⟨first, hfirst, hresult⟩, hcalls⟩ := result_of_mem_runAll hbase hroot hlabels hbase.standing hruns
  rw [List.nil_append] at hresult hcalls
  have hinstalled : (Ledger.ofRuns earlier).installed = true ↔ ∃ other ∈ earlier, other.isInstalled = true :=
    List.any_eq_true
  have hreleases : (Ledger.ofRuns earlier).releases run.start.request.version =
    earlier.countP (PastRun.isReleaseOf run.start.request.version) := rfl
  refine ⟨?_, fun hmode hfew => ?_, fun hmode hone => ?_, fun hmode hfew => ?_, fun hmode hfew hdone => ?_⟩
  · constructor
    · rintro ⟨-, hnone⟩
      refine Nat.le_of_not_lt fun hfew => ?_
      rw [hcalls] at hnone
      exact Ledger.calls_ne_nil hfew root hnone
    · intro hmany
      have hmany' := Nat.not_lt.2 hmany
      exact ⟨hresult.trans (Ledger.result_of_many hmany' _), hcalls.trans (if_neg hmany')⟩
  · rw [hmode] at hresult
    constructor
    · rintro ⟨outcome, hok⟩
      refine Classical.byContradiction fun hsome => ?_
      have hone : earlier.countP (PastRun.isReleaseOf run.start.request.version) = 1 := by omega
      rw [hok, Ledger.result_of_released hone] at hresult
      cases hresult
    · intro hnone
      exact ⟨_, hresult.trans (Ledger.result_of_unreleased hnone)⟩
  · have hfew : earlier.countP (PastRun.isReleaseOf run.start.request.version) < 2 := by omega
    rw [hmode] at hresult
    refine ⟨hresult.trans (Ledger.result_of_released hone), hcalls.trans ?_⟩
    simp only [Ledger.calls, hreleases, if_pos hfew, hmode]
  · rw [hmode] at hresult
    rw [← hinstalled, Bool.not_eq_true]
    constructor
    · rintro ⟨outcome, hok⟩
      refine Bool.eq_false_iff.2 fun hdone => ?_
      rw [hok, Ledger.result_of_installed hfew hdone] at hresult
      cases hresult
    · intro hnot
      exact ⟨_, hresult.trans (Ledger.result_of_not_installed hfew hnot)⟩
  · rw [hmode] at hresult
    rw [← hinstalled] at hdone
    refine ⟨⟨first, hfirst, hresult.trans (Ledger.result_of_installed hfew hdone)⟩, hcalls.trans ?_⟩
    simp only [Ledger.calls, hreleases, if_pos hfew, hmode, hdone, if_pos]

/-! ### A history of two releases -/

/-- The directory of the small checkout. -/
def smallRoot : List Name := [Bytes.ofString "r"]

/-- A release of the small checkout that prints nothing. -/
def smallStart : Start := ⟨smallRequest, smallLabel, .ascending, ⟨none, []⟩, false⟩

theorem cleanCheckout_small : Store.CleanCheckout ⟨smallCheckout, []⟩ ⟨"/r"⟩ smallRoot where
  reaches := ⟨rfl, rfl⟩
  no_nul := by decide
  metadata name hname := by
    have hnames : name = "setup.py" ∨ name = "MANIFEST.in" := by simpa [Config.metadataNames] using hname
    rcases hnames with rfl | rfl
    · exact ⟨_, _, rfl⟩
    · exact ⟨_, _, rfl⟩
  readme := ⟨_, _, rfl⟩
  unconfigured := rfl
  unused name hname := by
    have hnames : ∀ name ∈ Layout.outputNames, smallCheckout.get? (smallRoot ++ [name]) = none := by decide
    exact look_eq_none.2 (hnames name hname)

theorem second_release_of_small_checkout :
    Store.CleanCheckout ⟨smallCheckout, []⟩ ⟨"/r"⟩ smallRoot ∧
      (Path.bytes ⟨"/r"⟩).length ≤ Layout.rootLimit ∧
      (∀ start ∈ [smallStart, smallStart], (Bytes.ofString start.label.text).length ≤ 229) ∧
      ∃ first second, runAll ⟨"/r"⟩ ⟨smallCheckout, []⟩ [smallStart, smallStart] = [first] ++ second :: [] ∧
        second.FollowsFrom ⟨"/r"⟩ [first] := by
  have hroot : (Path.bytes ⟨"/r"⟩).length ≤ Layout.rootLimit := by decide
  have hlabels : ∀ start ∈ [smallStart, smallStart], (Bytes.ofString start.label.text).length ≤ 229 := by
    intro start hstart
    obtain rfl : start = smallStart := by simpa using hstart
    decide
  have hlength := length_runAll ⟨"/r"⟩ ⟨smallCheckout, []⟩ [smallStart, smallStart]
  obtain ⟨first, second, hruns⟩ : ∃ first second,
      runAll ⟨"/r"⟩ ⟨smallCheckout, []⟩ [smallStart, smallStart] = [first] ++ second :: [] :=
    List.length_eq_two.1 hlength
  exact ⟨cleanCheckout_small, hroot, hlabels, first, second, hruns,
    outcome_of_every_run cleanCheckout_small hroot hlabels hruns⟩

example : (runAll ⟨"/r"⟩ ⟨smallCheckout, []⟩ [smallStart, smallStart, smallStart]).map (·.calls.length) =
    [4, 4, 0] := by decide +kernel

/-! ## Roots that are too long -/

/-- No entry of a directory can be reached by a path that is too long. -/
theorem Route.read_of_long {root : Path} (hnul : (0 : UInt8) ∉ root.bytes)
    (hlong : lengthLimit ≤ root.bytes.length) {text : String} (hname : IsName (Bytes.ofString text)) :
    read (root / text).bytes = .error (.os .nameTooLong) := by
  have hlength := Path.length_bytes_lt_div (p := root) hname
  rw [read, if_neg (by rwa [Path.mem_bytes_div hname]), if_neg (Path.bytes_div_ne_nil hname),
    if_pos (by omega)]

/-- A root that is too long is refused before any call, and nothing is changed. -/
theorem package_of_long_root {σ : Type} (e : Executor σ) (r : Request) {root : Path} (label : Label)
    (hnul : (0 : UInt8) ∉ root.bytes) (hlong : Route.lengthLimit ≤ root.bytes.length) (s : Store) :
    Run.Ends (package e r root label) s (.error (.io (.os .nameTooLong))) [] (· = s) := by
  have hread (text : String) (hname : IsName (Bytes.ofString text)) :=
    Route.read_of_long hnul hlong hname
  have hnode (text : String) (hname : IsName (Bytes.ofString text)) :
      s.nodeAt true (root / text).bytes = .error (.os .nameTooLong) := by
    rw [Store.nodeAt, Store.placeOf, Store.locate, hread text hname]
  have hrequire : Job.requireNoWorkDir ⟨root, r.version, label⟩ s = (.ok (), s) := by
    refine require_eq_ok.2 ⟨?_, rfl⟩
    rw [Layout.workDir, Store.present, hnode _ (Layout.isName_work _)]
    rfl
  have hload : Config.load s root = .ok (Config.standard.resolvedAgainst root) := by
    have hfile : s.isFile (Config.path root).bytes = false := by
      have hname : IsName (Bytes.ofString Config.fileName) := by decide
      rw [Config.path, Store.isFile, hnode _ hname]
    rw [Config.load, Config.loadRaw, hfile]
    rfl
  have hdirs : Work.ofFiles (Files.makeDirs (root / Layout.rawModulesName).bytes) s =
      (.error (.io (.os .nameTooLong)), s) := by
    rw [ofFiles_eq, Files.makeDirs, if_neg (Path.bytes_div_ne_nil Layout.isName_rawModules), run_bind,
      Files.ask_eq, hread _ Layout.isName_rawModules]
    rfl
  have hloads : Run.Ends (σ := σ) (Run.ofStore (Config.load · root)) s
      (.ok (Config.standard.resolvedAgainst root)) [] (· = s) := .ofStore hload rfl
  rw [package]
  refine .ofWork_bind hrequire (hloads.bind_silent fun t ht => ?_)
  subst ht
  refine .progress_bind _ _ ?_
  cases r.mode with
  | release => exact .bind_error (.bind_error (.ofWork hdirs rfl))
  | develop => exact .bind_error (.bind_error (.ofWork hdirs rfl))

/-- A clean checkout is one whichever way its root is written. -/
theorem Store.CleanCheckout.slashed {root : Path} (h : base.CleanCheckout root d) (hroot : root.isAbsolute = true)
    (n : Nat) : base.CleanCheckout (root.slashed n) d where
  reaches := by
    obtain ⟨rest, hrest⟩ := List.head?_eq_some_iff.1 (Path.head_bytes hroot)
    obtain ⟨hwalk, hdir⟩ := h.reaches
    refine ⟨?_, hdir⟩
    have habsolute : (Route.ofBytes (root.slashed n).bytes).absolute = (Route.ofBytes root.bytes).absolute := by
      simp [Route.ofBytes, Path.bytes_slashed, hrest]
    have hhops : (Route.ofBytes (root.slashed n).bytes).hops = (Route.ofBytes root.bytes).hops :=
      Path.hopsOf_slashed root n
    rw [origin, habsolute, hhops]
    exact hwalk
  no_nul := by
    rw [Path.bytes_slashed, List.mem_append, List.mem_replicate]
    rintro (hnul | ⟨-, hnul⟩)
    · exact h.no_nul hnul
    · cases hnul
  metadata := h.metadata
  readme := h.readme
  unconfigured := h.unconfigured
  unused := h.unused

/-- A first release of a clean checkout does not succeed if its root is written with too many slashes. -/
theorem release_of_slashed_root {n : Nat} (hlong : Route.lengthLimit ≤ n) :
    ∃ run, runAll (Path.slashed ⟨"/r"⟩ n) ⟨smallCheckout, []⟩ [smallStart] = [run] ∧
      run.result = .error (.io (.os .nameTooLong)) ∧ ¬ run.FollowsFrom (Path.slashed ⟨"/r"⟩ n) [] := by
  have hclean := cleanCheckout_small.slashed (by decide) n
  have hbytes : Route.lengthLimit ≤ (Path.slashed ⟨"/r"⟩ n).bytes.length := by
    rw [Path.bytes_slashed, List.length_append, List.length_replicate]
    omega
  obtain ⟨t, hrun, -, -⟩ := package_of_long_root (Imitation.executor none .ascending) smallRequest smallLabel
    hclean.no_nul hbytes ⟨smallCheckout, []⟩ (.start ⟨smallCheckout, []⟩ [] ⟨none, []⟩ false) rfl
  refine ⟨⟨smallStart, .error (.io (.os .nameTooLong)), t.history.map (·.call)⟩, ?_, rfl, fun hfollows => ?_⟩
  · simp only [runAll, smallStart, hrun]
  · obtain ⟨outcome, hok⟩ := (hfollows.released rfl Nat.zero_lt_two).2 rfl
    cases hok

theorem release_of_long_root : smallCheckout.Plain ∧ (Path.slashed ⟨"/r"⟩ 4096).isAbsolute = true ∧
    Store.CleanCheckout ⟨smallCheckout, []⟩ (Path.slashed ⟨"/r"⟩ 4096) smallRoot ∧
      (Bytes.ofString smallStart.label.text).length ≤ 229 ∧
        ∃ run, runAll (Path.slashed ⟨"/r"⟩ 4096) ⟨smallCheckout, []⟩ [smallStart] = [run] ∧
          run.result = .error (.io (.os .nameTooLong)) ∧ ¬ run.FollowsFrom (Path.slashed ⟨"/r"⟩ 4096) [] :=
  ⟨plain_smallCheckout, Path.isAbsolute_slashed (by decide) _, cleanCheckout_small.slashed (by decide) _,
    by decide, release_of_slashed_root (Nat.le_refl _)⟩

end StubRelease
