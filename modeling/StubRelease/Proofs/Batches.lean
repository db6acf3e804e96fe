/-
# StubRelease.Proofs.Batches -- how a batch is rejected

A batch checks a version when its turn comes, so a batch that is rejected may have released versions before the
one it is rejected for. Main statement: it has released exactly those, and has done nothing for the one that is
rejected but make directories; it has done nothing at all if no entry stood in the places of the later working
directories when it began (`rejected_batch_stops_at_check`). The second part is about roots that stand in trees
without links: a finished release leaves alone what the checks of other versions look at, and clears its own
working directory away, so a later check can only find what the first one has seen.
-/
import StubRelease.Proofs.Checking
import StubRelease.Proofs.ToolTrace
import StubRelease.Proofs.Untouched

namespace StubRelease

open Sequence Node
open Route (hopsOf)

variable {σ : Type}

/-! ## What the checks look at -/

namespace Layout

/-- The place of the configuration file, when the root is the directory at `d`. -/
def configAt (d : List Name) : List Name := d ++ [Bytes.ofString Config.fileName]

/-- What the checks of other versions look at: the configuration file and their working directories. -/
def Checked (l : Layout) (d p : List Name) : Prop :=
  configAt d <+: p ∨ ∃ v : Version, v ≠ l.version ∧ d ++ [Bytes.ofString ("tmp-" ++ v.text)] <+: p

theorem isName_config : IsName (Bytes.ofString Config.fileName) := by decide

theorem work_ne_config (v : Version) : Bytes.ofString ("tmp-" ++ v.text) ≠ Bytes.ofString Config.fileName := by
  cases v <;> decide

theorem work_injective {v w : Version} (h : Bytes.ofString ("tmp-" ++ v.text) = Bytes.ofString ("tmp-" ++ w.text)) :
    v = w := by
  revert h
  cases v <;> cases w <;> decide

variable {l : Layout} {d p : List Name}

/-- A run works in places that no check of another version looks at. -/
theorem not_checked_of_workAt (hp : l.workAt d <+: p) : ¬ l.Checked d p := by
  rintro (hconfig | ⟨v, hne, hwork⟩)
  · exact work_ne_config _ (entry_isPrefix_inj hp hconfig)
  · exact hne (work_injective (entry_isPrefix_inj hwork hp))

theorem not_checked_of_rawModulesAt (hp : rawModulesAt d <+: p) : ¬ l.Checked d p := by
  rintro (hconfig | ⟨v, -, hwork⟩)
  · exact absurd (entry_isPrefix_inj hp hconfig) (by decide)
  · exact work_ne_rawModules v (entry_isPrefix_inj hwork hp)

theorem not_checked_of_releaseAt (hp : releaseAt d <+: p) : ¬ l.Checked d p := by
  rintro (hconfig | ⟨v, -, hwork⟩)
  · exact absurd (entry_isPrefix_inj hp hconfig) (by decide)
  · exact work_ne_release v (entry_isPrefix_inj hwork hp)

end Layout

/-- Tools that touch neither the configuration file nor the working directory of another version than the one they
are called for. -/
def Executor.SparesChecks (e : Executor σ) (root : Path) : Prop :=
  ∀ (l : Layout) c tools (s : Store), l.root = root → c.cwd = l.workDir → s.top.Plain →
    s.AltersIn (fun p => ¬ l.Checked (s.spelled root) p) (e.run c tools s).store

/-- Tools that keep to the directory they run in spare what the checks of other versions look at. -/
theorem Executor.WorksInside.sparesChecks {e : Executor σ} (he : e.WorksInside) (root : Path) :
    e.SparesChecks root := by
  rintro l c tools s rfl hcwd hs
  refine (he c tools s hs).mono ?_
  rintro p ⟨w, hplace, hinside⟩
  rw [hcwd] at hplace
  obtain ⟨-, -, rfl⟩ := Store.finds_of_placeOf (Layout.isName_work l.version) hs.linkFree hplace
  exact Layout.not_checked_of_workAt hinside.isPrefix

/-! ## A release that is finished -/

/-- What a finished release leaves for the checks that come after it: what they look at is as it was, the root
stands, and its own working directory is gone. -/
structure Layout.Passes (l : Layout) (s t : Store) : Prop where
  alters : s.AltersIn (fun p => ¬ l.Checked (s.spelled l.root) p) t
  stands : t.Stands l.root
  cleared : t.top.look (l.workAt (s.spelled l.root)) = none

theorem Store.origin_congr {s t : Store} (hcwd : t.cwd = s.cwd) (r : Route) : t.origin r = s.origin r := by
  rw [origin, origin, hcwd]

/-- A root stands as long as the directories on its way stay. -/
theorem Store.Stands.of_look {s t : Store} {root : Path} (h : s.Stands root) (hcwd : t.cwd = s.cwd)
    (hlook : ∀ p, OnWay (s.origin (Route.ofBytes root.bytes)) (hopsOf root.bytes) p →
      t.top.look p = s.top.look p) : t.Stands root := by
  intro p hp
  rw [Store.origin_congr hcwd] at hp
  rw [hlook p hp, h p hp]

/-- The way of a path of an entry is that of the path above, and the entry. -/
theorem Store.onWay_div {s : Store} {p : Path} {text : String} (hname : IsName (Bytes.ofString text))
    {place : List Name}
    (h : OnWay (s.origin (Route.ofBytes (p / text).bytes)) (hopsOf (p / text).bytes) place) :
    OnWay (s.origin (Route.ofBytes p.bytes)) (hopsOf p.bytes) place ∨
      place = s.spelled p ++ [Bytes.ofString text] := by
  have horigin : s.origin (Route.ofBytes (p / text).bytes) = s.origin (Route.ofBytes p.bytes) := by
    rw [Route.ofBytes_div hname]
    rfl
  obtain ⟨pre, hpre, rfl⟩ := h
  rw [horigin]
  rw [Path.hopsOf_div hname, List.prefix_concat_iff] at hpre
  rcases hpre with rfl | hpre
  · refine .inr ?_
    rw [List.foldl_append]
    rfl
  · exact .inl ⟨pre, hpre, rfl⟩

/-- A tree that was removed by a path which does not lead through it is gone, and its root goes on standing. -/
theorem Files.removeTree_clears {s t : Store} {root : Path} {text : String} (hs : s.top.Plain)
    (hname : IsName (Bytes.ofString text)) (h : removeTree (root / text).bytes s = (.ok (), t))
    (haway : ∀ p, OnWay (s.origin (Route.ofBytes root.bytes)) (hopsOf root.bytes) p →
      ¬ s.spelled root ++ [Bytes.ofString text] <+: p) :
    t = s.drop (s.spelled root) (Bytes.ofString text) ∧ t.Stands root := by
  have hplace : ∃ found, s.placeOf false (root / text).bytes = .ok found := by
    rw [removeTree, run_bind, ask_eq] at h
    cases hplace : s.placeOf false (root / text).bytes with
    | error fault =>
      rw [hplace] at h
      cases (outcome_inj.1 h).1
    | ok found => exact ⟨found, rfl⟩
  obtain ⟨found, hplace⟩ := hplace
  obtain ⟨hfinds, hshort, rfl⟩ := Store.finds_of_placeOf hname hs.linkFree hplace
  have hstands : s.Stands root := hfinds.reaches.stands hs.linkFree
  have hdir : s.top.look (s.spelled root ++ [Bytes.ofString text]) = some .dir := by
    rw [removeTree, run_bind, ask_eq, hplace] at h
    simp only [run_bind, run_get] at h
    cases hnode : s.top.get? (s.spelled root ++ [Bytes.ofString text]) with
    | none =>
      rw [hnode] at h
      cases (outcome_inj.1 h).1
    | some node =>
      cases node with
      | dir entries => exact look_eq_dir.2 ⟨entries, hnode⟩
      | file _ _ =>
        rw [hnode] at h
        cases (outcome_inj.1 h).1
      | link target => exact absurd (look_eq_link.2 hnode) (hs.linkFree _ target)
  have hemptied : (s.put (s.spelled root) (Bytes.ofString text) .emptyDir).Reaches root (s.spelled root) := by
    have hkept : (s.put (s.spelled root) (Bytes.ofString text) .emptyDir).Stands root :=
      hstands.of_look rfl fun p hp => look_put_elsewhere s.top _ (haway p hp)
    exact hkept.reaches hs.linkFree hfinds.reaches
  rw [removeTree_of_finds hname hfinds hshort hdir hemptied] at h
  obtain ⟨-, rfl⟩ := outcome_inj.1 h
  exact ⟨rfl, hstands.of_look rfl fun p hp => look_drop_elsewhere s.top (haway p hp)⟩

namespace Job

variable {j : Job σ} {s t : Session σ} {root : Path} {d : List Name}

/-- A release that has begun has touched nothing that the checks of other versions look at. -/
theorem Begun.spares {l : Layout} {s base t : Store} (h : Begun l s base d t) (hs : s.top.Plain)
    (hroot : s.Reaches l.root d) : s.AltersIn (fun p => ¬ l.Checked d p) t := by
  have hdirs := h.grows.outputDirs hs hroot
  have hbase : s.AltersIn (fun p => ¬ l.Checked d p) base := by
    refine ⟨hdirs.cwd, hdirs.plain, fun p hp => hdirs.look p ?_⟩
    rintro (rfl | rfl)
    · exact hp (Layout.not_checked_of_rawModulesAt List.prefix_rfl)
    · exact hp (Layout.not_checked_of_releaseAt List.prefix_rfl)
  have hput := ChangesIn.put h.site.plain d (Layout.isName_work l.version) .emptyDir
  refine hbase.trans ?_
  rw [h.store]
  exact ⟨rfl, hput.mono fun p hp => Layout.not_checked_of_workAt hp⟩

/-- No stage of a release touches what the checks of other versions look at. -/
theorem stagewise_spares (he : j.executor.SparesChecks j.layout.root) (d : List Name) :
    j.Stagewise j.layout.workDir (fun s => s.top.Plain ∧ s.spelled j.layout.root = d)
      (Store.AltersIn fun p => ¬ j.layout.Checked d p) where
  refl hs := .refl hs.1
  trans := .trans
  keeps hs h := ⟨h.plain, (h.spelled _).trans hs.2⟩
  call := by
    rintro s c ⟨hs, rfl⟩ hcwd
    rw [Run.callChecked_store]
    exact he j.layout c s.tools s.store rfl hcwd hs
  archive := by
    rintro s ⟨hs, rfl⟩
    refine ((archiveGenerated_leaves hs Layout.spelled_workDir_ne).alters hs).mono ?_
    rintro p (rfl | rfl)
    · rw [Layout.spelled_workDir]
      exact Layout.not_checked_of_workAt (List.prefix_append _ _)
    · exact Layout.not_checked_of_rawModulesAt Layout.rawModulesAt_isPrefix_archiveAt
  promote := by
    rintro s ⟨hs, rfl⟩
    have hinside := (Staging.promoteGenerated_promotes j.executor.order (w := j.layout.workDir) hs).alters
    rw [Layout.spelled_workDir] at hinside
    exact hinside.mono fun p hp => Layout.not_checked_of_workAt hp.isPrefix
  copy := by
    rintro s ⟨hs, rfl⟩
    refine (Staging.copyMetadata_alters hs j.config).mono ?_
    rintro p ⟨name, -, rfl⟩
    rw [Layout.spelled_workDir]
    exact Layout.not_checked_of_workAt (List.prefix_append _ _)

theorem build_spares (he : j.executor.SparesChecks j.layout.root) (hs : s.store.top.Plain) :
    s.store.AltersIn (fun p => ¬ j.layout.Checked (s.store.spelled j.layout.root) p)
      (j.build j.layout.workDir s).2.store := by
  have h := stagewise_spares he (s.store.spelled j.layout.root)
  refine h.bind ⟨hs, rfl⟩ (h.generateAndStage ⟨hs, rfl⟩ .release) fun _ s₁ _ hs₁ => ?_
  exact h.bind hs₁ (h.runSetup hs₁ _) fun _ s₂ _ hs₂ => h.refl hs₂

/-- Publishing makes directories on the way of the root, where none that is looked at is missing, and in the
release tree. -/
theorem publishDist_spares {l : Layout} {s : Store} (hs : s.top.Plain)
    (hway : ∀ p, OnWay (s.origin (Route.ofBytes l.root.bytes)) (hopsOf l.root.bytes) p →
      l.Checked (s.spelled l.root) p → s.top.look p = some .dir) :
    s.AltersIn (fun p => ¬ l.Checked (s.spelled l.root) p)
      (Staging.publishDist l.workDir l.versionReleaseDir s).2 := by
  refine alters_bind (by rw [require_store]; exact .refl hs) fun _ u hrequire _ => ?_
  obtain ⟨-, rfl⟩ := require_eq_ok.1 hrequire
  refine alters_bind ?_ fun _ u _ hu => ?_
  · rw [ofFiles_store]
    have hgrows := Files.makeDirs_div_growsIn (p := l.releaseDir) hs (Layout.isName_version l.version)
    refine ⟨hgrows.cwd, hgrows.plain, fun p hp => ?_⟩
    have hchecked : l.Checked (s.spelled l.root) p := Classical.not_not.1 hp
    by_cases hroot : OnWay (s.origin (Route.ofBytes l.root.bytes)) (hopsOf l.root.bytes) p
    · rw [hway p hroot hchecked]
      exact hgrows.grows.look_eq (hway p hroot hchecked)
    · have hrelease : ¬ Layout.releaseAt (s.spelled l.root) <+: p := fun hat =>
        Layout.not_checked_of_releaseAt hat hchecked
      refine hgrows.look p ?_
      rw [Layout.spelled_releaseDir]
      rintro (hat | rfl)
      · rcases Store.onWay_div Layout.isName_release hat with hat | rfl
        · exact hroot hat
        · exact hrelease List.prefix_rfl
      · exact hrelease (List.prefix_append _ _)
  · have hmoves := Staging.movePath_alters (q := l.workDir) (p := l.versionReleaseDir) hu.plain Layout.isName_dist
      Layout.isName_dist
    rw [Layout.spelled_workDir, Layout.spelled_versionReleaseDir, hu.spelled] at hmoves
    refine alters_bind (hmoves.mono ?_) fun _ v _ hv => .refl hv.plain
    rintro p (hp | ⟨-, hp⟩)
    · exact Layout.not_checked_of_workAt ((List.prefix_append _ _).trans hp)
    · exact Layout.not_checked_of_releaseAt (Layout.releaseAt_isPrefix_distAt.trans hp)

/-- A release that is finished has built, published and removed its working directory. -/
theorem buildAndPublish_eq_ok {outcome : Outcome} (h : j.buildAndPublish s = (.ok outcome, t)) :
    ∃ archive u dist published cleared, j.build j.layout.workDir s = (.ok archive, u) ∧
      Staging.publishDist j.layout.workDir j.layout.versionReleaseDir u.store = (.ok dist, published) ∧
      Files.removeTree j.layout.workDir.bytes published = (.ok (), cleared) ∧ cleared = t.store := by
  obtain ⟨archive, u, hbuild, h⟩ := bind_eq_ok.1 h
  obtain ⟨dist, v, hpublish, h⟩ := bind_eq_ok.1 h
  obtain ⟨-, rfl⟩ := outcome_inj.1 h
  obtain ⟨dist', w, hdist, hpublish⟩ := bind_eq_ok.1 hpublish
  obtain ⟨_, x, hremove, hpublish⟩ := bind_eq_ok.1 hpublish
  obtain ⟨_, y, hsay, hpublish⟩ := bind_eq_ok.1 hpublish
  obtain ⟨-, rfl⟩ := outcome_inj.1 hpublish
  refine ⟨archive, u, dist', w.store, x.store, hbuild, (ofWork_eq_ok hdist).1,
    ofFiles_eq_ok.1 (ofWork_eq_ok hremove).1, ?_⟩
  exact (Run.progress_eq_ok hsay).1.symm

end Job

/-- A finished release of a root that stands passes on what the checks of other versions look at. -/
theorem package_passes {e : Executor σ} {r : Request} (hmode : r.mode = .release) {root : Path}
    (he : e.SparesChecks root) {label : Label} {s t : Session σ} (hs : s.store.top.Plain)
    (hroot : s.store.Stands root) {outcome : Outcome} (h : package e r root label s = (.ok outcome, t)) :
    Layout.Passes ⟨root, r.version, label⟩ s.store t.store ∧ ∃ c, Config.load s.store root = .ok c := by
  rw [Job.package_release_eq e hmode] at h
  obtain ⟨failure, u, hfailed, -⟩ | ⟨config, base, d, u, hload, hprepared, -, hbegun⟩ :=
    Job.prepare_cases e r root label hs
  · rw [bind_of_error _ hfailed] at h
    cases (outcome_inj.1 h).1
  refine ⟨?_, config, hload⟩
  rw [bind_of_ok _ hprepared] at h
  obtain ⟨archive, v, dist, published, cleared, hbuild, hpublish, hremove, hstore⟩ := Job.buildAndPublish_eq_ok h
  obtain rfl : d = s.store.spelled root := by
    rw [← hbegun.site.spelled, Store.spelled_congr hbegun.grows.cwd]
  have hreaches := hroot.reaches hbegun.site.plain.linkFree hbegun.site.finds.reaches
  have hway {p : List Name} (hp : OnWay (s.store.origin (Route.ofBytes root.bytes)) (hopsOf root.bytes) p) :
      base.top.look p = some .dir := hbegun.grows.grows.look_eq (hroot p hp)
  have hbegan := hbegun.spares hs hreaches
  have hbuilt := Job.build_spares
    (j := ⟨e, config, ⟨root, r.version, label⟩, r.sourceDir, r.blenderDir, r.quiet⟩) (s := u) he hbegan.plain
  rw [hbuild, hbegan.spelled] at hbuilt
  have hafter := hbegan.trans hbuilt
  -- what publishing may make on the way of the root stands already
  have hpublished := Job.publishDist_spares (l := ⟨root, r.version, label⟩) hafter.plain fun p hp hchecked => by
    rw [Store.origin_congr hafter.cwd] at hp
    rw [hafter.spelled] at hchecked
    rw [hafter.look fun h => h hchecked, hroot p hp]
  rw [hpublish, hafter.spelled] at hpublished
  have hfinished := hafter.trans hpublished
  obtain ⟨hcleared, hstands⟩ := Files.removeTree_clears hfinished.plain (Layout.isName_work r.version) hremove
    fun p hp => by
      rw [Store.origin_congr hfinished.cwd] at hp
      rw [hfinished.spelled]
      exact hbegun.site.not_isPrefix (by simp [hway hp])
  rw [hfinished.spelled] at hcleared
  rw [← hstore]
  refine ⟨hfinished.trans ?_, hstands, ?_⟩
  · rw [hcleared]
    exact ⟨rfl, (ChangesIn.drop hfinished.plain _ _).mono fun p hp => Layout.not_checked_of_workAt hp⟩
  · rw [hcleared]
    exact look_drop _ _ _ []

/-! ## One release after the other -/

/-- What releases leave for the checks that come after them: the configuration is as it was, and the place of every
working directory is as it was or free. -/
structure Spared (root : Path) (s t : Store) : Prop where
  cwd : t.cwd = s.cwd
  plain : t.top.Plain
  stands : t.Stands root
  config : t.top.look (Layout.configAt (s.spelled root)) = s.top.look (Layout.configAt (s.spelled root))
  work : ∀ v : Version, t.top.look (s.spelled root ++ [Bytes.ofString ("tmp-" ++ v.text)]) =
      s.top.look (s.spelled root ++ [Bytes.ofString ("tmp-" ++ v.text)]) ∨
    t.top.look (s.spelled root ++ [Bytes.ofString ("tmp-" ++ v.text)]) = none

namespace Spared

variable {root : Path} {s t u : Store}

theorem refl (hs : s.top.Plain) (hroot : s.Stands root) : Spared root s s := ⟨rfl, hs, hroot, rfl, fun _ => .inl rfl⟩

/-- A release more. -/
theorem after (h : Spared root s t) {l : Layout} (hl : l.root = root) (hp : l.Passes t u) : Spared root s u := by
  subst hl
  have halters := hp.alters
  have hcleared := hp.cleared
  rw [Store.spelled_congr h.cwd] at halters hcleared
  refine ⟨halters.cwd.trans h.cwd, halters.plain, hp.stands, ?_, fun v => ?_⟩
  · rw [halters.look fun hat => hat (.inl List.prefix_rfl), h.config]
  · by_cases hversion : v = l.version
    · rw [hversion]
      exact .inr hcleared
    · rw [halters.look fun hat => hat (.inr ⟨v, hversion, List.prefix_rfl⟩)]
      exact h.work v

/-- A path of an entry of the root that leads to the entry after the releases could be read before them. -/
theorem finds (h : Spared root s t) (hroot : s.Stands root) {text : String} (hname : IsName (Bytes.ofString text))
    {node : Node} (hnode : t.nodeAt true (root / text).bytes = .ok node) :
    s.Finds root text (s.spelled root) ∧ (Bytes.ofString text).length ≤ Route.nameLimit ∧
      t.top.get? (s.spelled root ++ [Bytes.ofString text]) = some node := by
  obtain ⟨hfinds, hshort, hget⟩ := Store.finds_of_nodeAt hname h.plain.linkFree hnode
  rw [Store.spelled_congr h.cwd] at hget
  exact ⟨⟨hroot.reaches h.plain.linkFree hfinds.reaches, hfinds.no_nul, hfinds.fits⟩, hshort, hget⟩

/-- What is found in the place of a working directory stood there before. -/
theorem hasEntry (h : Spared root s t) (hroot : s.Stands root) {v : Version}
    (hstands : t.present (root / ("tmp-" ++ v.text)).bytes = true) :
    s.hasEntry (root / ("tmp-" ++ v.text)).bytes = true := by
  have hname := Layout.isName_work v
  cases hnode : t.nodeAt true (root / ("tmp-" ++ v.text)).bytes with
  | error fault =>
    rw [Store.present, hnode] at hstands
    cases hstands
  | ok node =>
    obtain ⟨hfinds, hshort, hget⟩ := h.finds hroot hname hnode
    have hseen := look_of_get? hget
    rcases h.work v with hsame | hnone
    · rw [hsame] at hseen
      obtain ⟨found, hfound, -⟩ := Option.map_eq_some_iff.1 hseen
      rw [Store.hasEntry, Store.nodeAt_div hname hfinds hshort (by simp), hfound]
      rfl
    · rw [hnone] at hseen
      cases hseen

/-- A configuration that cannot be read could not be read before. -/
theorem load (h : Spared root s t) (hs : s.top.LinkFree) (hroot : s.Stands root) {f : Failure}
    (hload : Config.load t root = .error f) : Config.load s root = .error f := by
  have hdefect := Config.errorOf_load t root
  have hbefore := Config.errorOf_load s root
  rw [hload, Check.configDefect?] at hdefect
  cases hnode : t.nodeAt true (Config.path root).bytes with
  | error fault =>
    rw [hnode] at hdefect
    cases hdefect
  | ok node =>
    cases node with
    | dir _ =>
      rw [hnode] at hdefect
      cases hdefect
    | link _ =>
      rw [hnode] at hdefect
      cases hdefect
    | file content executable =>
      obtain ⟨hfinds, hshort, hget⟩ := h.finds hroot Layout.isName_config hnode
      have hstood : s.top.get? (s.spelled root ++ [Bytes.ofString Config.fileName]) =
          some (.file content executable) := by
        rw [← look_eq_file, ← look_eq_file.2 hget]
        exact h.config.symm
      have hsame : s.nodeAt true (Config.path root).bytes = .ok (.file content executable) := by
        rw [Config.path, Store.nodeAt_div Layout.isName_config hfinds hshort fun _ target => hs _ target, hstood]
      rw [hnode] at hdefect
      rw [Check.configDefect?, hsame, ← hdefect] at hbefore
      cases hresult : Config.load s root with
      | ok c =>
        rw [hresult] at hbefore
        cases hbefore
      | error g =>
        rw [hresult] at hbefore
        rw [Option.some.inj hbefore]

/-- After releases a run is rejected only for a working directory that stood there before them. -/
theorem hasEntry_of_rejected {v w : Session σ} (h : Spared root s v.store) (hs : s.top.LinkFree)
    (hroot : s.Stands root) {c : Config} (hload : Config.load s root = .ok c) {r : Request} {label : Label}
    {f : Failure} (hrejected : Rejected r root label v f w) :
    s.hasEntry (root / ("tmp-" ++ r.version.text)).bytes = true := by
  cases hrejected with
  | workDir stands => exact h.hasEntry hroot stands
  | config free load =>
    rw [h.load hs hroot load] at hload
    cases hload
  | late mode free history makes stands =>
    have hbefore := makes.present h.plain h.stands stands
    exact h.hasEntry hroot hbefore

end Spared

/-! ## Batches -/

section Batches

variable {e : Executor σ} {b : Batch} {root : Path} {label : Label} {s t : Session σ} {versions : List Version}

/-- Releases, one after the other, in their working directories. -/
theorem Spared.releaseEach {base : Store} (h : Spared root base s.store) (he : e.SparesChecks root)
    (hrun : releaseEach e b root label versions s = (.ok (), t)) : Spared root base t.store := by
  induction versions generalizing s with
  | nil =>
    obtain ⟨-, rfl⟩ := outcome_inj.1 hrun
    exact h
  | cons v rest ih =>
    obtain ⟨outcome, u, hpackage, hrest⟩ := bind_eq_ok.1 hrun
    obtain ⟨hpasses, -⟩ := package_passes (r := b.request v) rfl he h.plain h.stands hpackage
    exact ih (h.after rfl hpasses) hrest

/-- Releases of several versions are rejected for one of them, when those before it are finished. -/
theorem releaseEach_rejects (he : e.NeverRejects) {f : Failure}
    (h : releaseEach e b root label versions s = (.error f, t)) (hf : f.isBadInvocation = true) :
    ∃ done v rest u, versions = done ++ v :: rest ∧ releaseEach e b root label done s = (.ok (), u) ∧
      Rejected (b.request v) root label u f t := by
  induction versions generalizing s with
  | nil => cases (outcome_inj.1 h).1
  | cons v rest ih =>
    rw [releaseEach, run_bind] at h
    cases hpackage : package e (b.request v) root label s with
    | mk result u =>
      rw [hpackage] at h
      cases result with
      | error failure =>
        obtain ⟨hfailure, rfl⟩ := outcome_inj.1 h
        cases hfailure
        exact ⟨[], v, rest, s, rfl, rfl, package_rejects he hpackage hf⟩
      | ok outcome =>
        obtain ⟨done, w, more, x, rfl, hdone, hrejected⟩ := ih h
        refine ⟨v :: done, w, more, x, rfl, ?_, hrejected⟩
        rw [releaseEach, bind_of_ok _ hpackage, hdone]

/-- Nothing but the releases of its versions rejects a batch. -/
theorem buildAll_rejects {f : Failure} (h : buildAll e b root label s = (.error f, t))
    (hf : f.isBadInvocation = true) : releaseEach e b root label b.versions s = (.error f, t) := by
  have hsteps : buildAll e b root label =
      releaseEach e b root label b.versions >>= fun _ => packOutputs e.order b root := rfl
  rw [hsteps, run_bind] at h
  cases hrun : releaseEach e b root label b.versions s with
  | mk result u =>
    rw [hrun] at h
    cases result with
    | error failure =>
      obtain ⟨hfailure, rfl⟩ := outcome_inj.1 h
      cases hfailure
      rfl
    | ok _ => exact absurd hf (by simp [(packOutputs_failsWith e.order b root u f t h).isBadInvocation_eq])

/-- A batch that is rejected has released the versions before the one it is rejected for, and nothing else: no tool
was called for that one, and directories were made at most. If no entry stood in the places of the later working
directories when the batch began, it has done nothing at all. -/
theorem rejected_batch_stops_at_check (he : e.NeverRejects) {f : Failure}
    (h : buildAll e b root label s = (.error f, t)) (hf : f.isBadInvocation = true) :
    (∃ done v rest u, b.versions = done ++ v :: rest ∧ releaseEach e b root label done s = (.ok (), u) ∧
      Rejected (b.request v) root label u f t ∧ t.history = u.history ∧ u.store.Gains t.store) ∧
    (s.store.top.Plain → s.store.Stands root → e.SparesChecks root →
      (∀ v ∈ b.versions.tail, s.store.hasEntry (root / ("tmp-" ++ v.text)).bytes = false) → t = s) := by
  obtain ⟨done, v, rest, u, hversions, hdone, hrejected⟩ := releaseEach_rejects he (buildAll_rejects h hf) hf
  refine ⟨⟨done, v, rest, u, hversions, hdone, hrejected, hrejected.history, hrejected.gains⟩,
    fun hs hroot hspares hfree => ?_⟩
  cases done with
  | nil =>
    obtain ⟨-, rfl⟩ := outcome_inj.1 hdone
    exact (hrejected.early hs hroot).1
  | cons first more =>
    -- the configuration passed the first check, so the version was rejected for its working directory
    obtain ⟨outcome, x, hpackage, -⟩ := bind_eq_ok.1 hdone
    obtain ⟨-, c, hload⟩ := package_passes (r := b.request first) rfl hspares hs hroot hpackage
    have hspared := (Spared.refl hs hroot).releaseEach hspares hdone
    have hentry := hspared.hasEntry_of_rejected hs.linkFree hroot hload hrejected
    have hlater : v ∈ b.versions.tail := by
      rw [hversions]
      exact List.mem_append_right more List.mem_cons_self
    exact absurd hentry (by simp [Batch.request, hfree v hlater])

end Batches

/-- A batch of two versions. -/
def smallBatch : Batch := ⟨[.v279, .v280], ⟨"/s"⟩, ⟨"/b"⟩, false, true⟩

/-- The small checkout with a directory in the place of a working directory. -/
def occupiedSession (v : Version) : Session Unit :=
  .start ⟨smallCheckout.put [Bytes.ofString "r"] (Bytes.ofString ("tmp-" ++ v.text)) .emptyDir, []⟩ () ⟨none, []⟩ false

theorem plain_occupiedSession (v : Version) : (occupiedSession v).store.top.Plain :=
  plain_smallCheckout.put [Bytes.ofString "r"] (Layout.isName_work v) .emptyDir

/-- With a directory in the place of its first working directory the batch does nothing. -/
theorem occupied_batch_does_nothing : (Executor.putting smallTree).NeverRejects ∧
    ∃ t, buildAll (Executor.putting smallTree) smallBatch ⟨"/r"⟩ smallLabel (occupiedSession .v279) =
        (.error (.workDirExists ⟨"/r/tmp-2.79"⟩), t) ∧
      (∃ done v rest u, smallBatch.versions = done ++ v :: rest ∧
        releaseEach (Executor.putting smallTree) smallBatch ⟨"/r"⟩ smallLabel done (occupiedSession .v279) =
          (.ok (), u) ∧
        Rejected (smallBatch.request v) ⟨"/r"⟩ smallLabel u (.workDirExists ⟨"/r/tmp-2.79"⟩) t ∧
        t.history = u.history ∧ u.store.Gains t.store) ∧ t = occupiedSession .v279 := by
  have he : (Executor.putting smallTree).NeverRejects := Executor.neverRejects_putting smallTree
  have hfailure : errorOf (buildAll (Executor.putting smallTree) smallBatch ⟨"/r"⟩ smallLabel
      (occupiedSession .v279)).1 = some (.workDirExists ⟨"/r/tmp-2.79"⟩) := by decide +kernel
  cases hrun : buildAll (Executor.putting smallTree) smallBatch ⟨"/r"⟩ smallLabel (occupiedSession .v279) with
  | mk result t =>
    rw [hrun] at hfailure
    cases result with
    | ok _ => cases hfailure
    | error failure =>
      obtain rfl := Option.some.inj hfailure
      obtain ⟨hstops, hnothing⟩ := rejected_batch_stops_at_check he hrun rfl
      have hroot : (occupiedSession .v279).store.Reaches ⟨"/r"⟩ [Bytes.ofString "r"] := ⟨rfl, rfl⟩
      have hplain := plain_occupiedSession .v279
      refine ⟨he, t, rfl, hstops, hnothing hplain (hroot.stands hplain.linkFree)
        ((Executor.worksInside_putting plain_smallTree).sparesChecks ⟨"/r"⟩) ?_⟩
      decide +kernel

/-- With a directory in the place of its second working directory the batch has released the first version when it
is rejected. -/
theorem occupied_batch_releases_first : (Executor.putting smallTree).NeverRejects ∧
    (Executor.putting smallTree).SparesChecks ⟨"/r"⟩ ∧
    let run := buildAll (Executor.putting smallTree) smallBatch ⟨"/r"⟩ smallLabel (occupiedSession .v280)
    errorOf run.1 = some (.workDirExists ⟨"/r/tmp-2.80"⟩) ∧ run.2.history.length = 4 ∧
      (occupiedSession .v280).store.top.look smallDist.place = none ∧ run.2.store.top.look smallDist.place ≠ none :=
  ⟨Executor.neverRejects_putting smallTree, (Executor.worksInside_putting plain_smallTree).sparesChecks ⟨"/r"⟩,
    by decide +kernel, by decide +kernel, by decide +kernel, by decide +kernel⟩

end StubRelease
