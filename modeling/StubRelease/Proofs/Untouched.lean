/-
# StubRelease.Proofs.Untouched -- what a run leaves alone

A release alters its archive, the distributions of its version and its working directory, and makes the two
output directories. A development install works in the directory that holds all published releases; of what
stands there it alters its archive, the generated entries, and the copies it lays out beside them. Main
statement: `package_spares`, for both modes and however the run ends, with what follows for the archives and
the distributions of other versions.
-/
import StubRelease.Proofs.Releasing

namespace StubRelease

open Sequence Node

variable {σ α β : Type}

/-! ## Places -/

/-- What the tools of a mode may write in the directory they run in: anything inside it for a release, the
generated entries and the converted readme for a development install. -/
def Mode.Region : Mode → List Name → List Name → Prop
  | .release, w, p => Inside w p
  | .develop, w, p =>
    w ++ [Bytes.ofString Layout.generatedName] <+: p ∨ p = w ++ [Bytes.ofString Call.convertedReadme]

namespace Layout

/-- The files that a development install lays out in the release directory. -/
def developFiles (l : Layout) : List String := Config.metadataNames ++ [Call.convertedReadme, l.archiveFileName]

/-- Where a run of a mode may alter what stands there. -/
def MayAlter (l : Layout) (d : List Name) : Mode → List Name → Prop
  | .release, p => l.workAt d <+: p ∨ p = l.archiveAt d ∨ l.PublishedAt d p
  | .develop, p =>
    p = l.archiveAt d ∨ releaseAt d ++ [Bytes.ofString generatedName] <+: p ∨
      ∃ name ∈ l.developFiles, p = releaseAt d ++ [Bytes.ofString name]

variable {l : Layout} {d p : List Name}

/-- Where a development install alters something in the release directory: under one of few names. -/
theorem MayAlter.entry (h : l.MayAlter d .develop p) {name : Name} (hp : releaseAt d ++ [name] <+: p) :
    ∃ text ∈ generatedName :: l.developFiles, name = Bytes.ofString text := by
  rcases h with rfl | hgenerated | ⟨text, htext, rfl⟩
  · exact absurd ((List.prefix_append _ _).trans hp) fun hat =>
      not_rawModulesAt_of_releaseAt hat rawModulesAt_isPrefix_archiveAt
  · exact ⟨generatedName, List.mem_cons_self, entry_isPrefix_inj hp hgenerated⟩
  · exact ⟨text, List.mem_cons_of_mem _ htext, entry_isPrefix_inj hp List.prefix_rfl⟩

/-- A development install writes nothing under the name of a version. -/
theorem version_notMem_developFiles (l : Layout) (v : Version) :
    ∀ text ∈ generatedName :: l.developFiles, Bytes.ofString v.text ≠ Bytes.ofString text := by
  have hfixed : ∀ text ∈ generatedName :: (Config.metadataNames ++ [Call.convertedReadme]),
      Bytes.ofString v.text ≠ Bytes.ofString text := by
    cases v <;> decide
  have hshort : (Bytes.ofString v.text).length ≤ 22 := by cases v <;> decide
  intro text htext
  have hcases : text ∈ generatedName :: (Config.metadataNames ++ [Call.convertedReadme]) ∨
      text = l.archiveFileName := by
    simpa [developFiles, or_assoc] using htext
  rcases hcases with hmem | rfl
  · exact hfixed text hmem
  · exact (l.archive_ne hshort).symm

/-- A run does not alter the archives of other versions. -/
theorem MayAlter.not_archiveAt {mode : Mode} {m : Layout} (hne : m.version ≠ l.version)
    (h : l.MayAlter d mode (m.archiveAt d)) : False := by
  have harchive : m.archiveAt d ≠ l.archiveAt d := fun heq =>
    hne (archiveFileName_inj.1 (List.singleton_inj.1 (List.append_cancel_left heq))).1
  have hrelease (hat : releaseAt d <+: m.archiveAt d) : False :=
    not_rawModulesAt_of_releaseAt hat rawModulesAt_isPrefix_archiveAt
  cases mode with
  | release =>
    rcases h with hwork | heq | heq | hdist
    · exact not_workAt_of_rawModulesAt rawModulesAt_isPrefix_archiveAt hwork
    · exact harchive heq
    · exact hrelease (heq ▸ releaseAt_isPrefix_versionAt)
    · exact hrelease (releaseAt_isPrefix_distAt.trans hdist)
  | develop =>
    rcases h with heq | hgenerated | ⟨text, -, heq⟩
    · exact harchive heq
    · exact hrelease ((List.prefix_append _ _).trans hgenerated)
    · exact hrelease (heq ▸ List.prefix_append _ _)

/-- A release does not alter the distributions of other versions. -/
theorem MayAlter.not_distAt {m : Layout} (hne : m.version ≠ l.version) (hp : m.distAt d <+: p)
    (h : l.MayAlter d .release p) : False := by
  have hversions {q : List Name} (hl : l.versionAt d <+: q) (hm : m.versionAt d <+: q) : False :=
    hne (Version.text_injective (Bytes.ofString_injective (entry_isPrefix_inj hm hl)))
  have hm : m.versionAt d <+: p := versionAt_isPrefix_distAt.trans hp
  rcases h with hwork | heq | rfl | hdist
  · exact not_workAt_of_releaseAt (releaseAt_isPrefix_versionAt.trans hm) hwork
  · exact archiveAt_ne_of_releaseAt (releaseAt_isPrefix_versionAt.trans hm) heq
  · exact hversions List.prefix_rfl hm
  · exact hversions (versionAt_isPrefix_distAt.trans hdist) hm

end Layout

/-! ## Making the output directories -/

/-- Where the root exists, the output directories are all that is made. -/
theorem Files.GrowsIn.outputDirs {s t : Store} {root : Path} {d : List Name} (hs : s.top.Plain)
    (hroot : s.Reaches root d) (h : GrowsIn (Layout.OutputPlace s root) s t) :
    GrowsIn (fun p => p = Layout.rawModulesAt d ∨ p = Layout.releaseAt d) s t := by
  refine ⟨h.cwd, h.grows, fun p hp => ?_⟩
  by_cases hway : OnWay (s.origin (Route.ofBytes root.bytes)) (Route.hopsOf root.bytes) p
  · have hdir := hroot.look_of_onWay hs.linkFree hway
    rw [h.grows.look_eq hdir, hdir]
  · refine h.look p (not_or.2 ⟨hway, ?_⟩)
    rwa [← hroot.eq_spelled hs.linkFree]

/-! ## A development install -/

/-- What a development install does to a tree: it alters some places, adds to the release directory, and leaves
every entry of that directory alone that stands there under another name than those it writes. -/
structure Develops (l : Layout) (d : List Name) (s t : Store) : Prop where
  adds : s.AddsIn (l.MayAlter d .develop) (fun p => p = Layout.rawModulesAt d ∨ Layout.releaseAt d <+: p) t
  keeps : ∀ {name}, (∀ text ∈ Layout.generatedName :: l.developFiles, name ≠ Bytes.ofString text) →
    s.top.look (Layout.releaseAt d ++ [name]) ≠ none → ∀ {p}, Layout.releaseAt d ++ [name] <+: p →
    t.top.look p = s.top.look p

namespace Develops

variable {l : Layout} {d : List Name} {s t u : Store}

theorem of_alters (h : s.AltersIn (l.MayAlter d .develop) t) : Develops l d s t where
  adds := .of_alters h
  keeps hname _ _ hp := h.look fun hat => by
    obtain ⟨text, htext, rfl⟩ := hat.entry hp
    exact hname text htext rfl

theorem refl (hs : s.top.Plain) : Develops l d s s := .of_alters (.refl hs)

theorem trans (h : Develops l d s t) (h' : Develops l d t u) : Develops l d s u where
  adds := h.adds.trans h'.adds
  keeps hname hstood p hp := by
    refine (h'.keeps hname ?_ hp).trans (h.keeps hname hstood hp)
    rwa [h.keeps hname hstood List.prefix_rfl]

theorem plain (h : Develops l d s t) : t.top.Plain := Store.AltersIn.plain h.adds

theorem spelled (h : Develops l d s t) (p : Path) : t.spelled p = s.spelled p := Store.AltersIn.spelled h.adds p

theorem of_promotes (h : Staging.Promotes (Layout.releaseAt d) s t) : Develops l d s t where
  adds := by
    refine h.mono ?_
    rintro p (hp | ⟨name, hnone, rest, rfl⟩)
    · exact .inl (.inr (.inl hp))
    · refine .inr ⟨.inr ⟨name :: rest, by simp⟩, ?_⟩
      cases rest with
      | nil => rwa [List.append_nil]
      | cons first rest => exact look_below_of_not_dir (by simp [hnone]) first rest
  keeps hname hstood _ hp := h.look (hname _ List.mem_cons_self) hstood hp

theorem of_growsIn (h : Files.GrowsIn (fun p => p = Layout.rawModulesAt d ∨ p = Layout.releaseAt d) s t) :
    Develops l d s t where
  adds := by
    refine ⟨h.cwd, h.plain, fun p hp => ?_⟩
    rcases h.grows.look p with heq | ⟨hnone, hmade⟩
    · exact heq
    · refine h.look p fun hat => hp (.inr ⟨hat.imp_right ?_, hnone⟩)
      rintro rfl
      exact List.prefix_rfl
  keeps := by
    intro name _ _ p hp
    refine h.look p ?_
    rintro (rfl | rfl)
    · exact Layout.not_rawModulesAt_of_releaseAt ((List.prefix_append _ _).trans hp) List.prefix_rfl
    · exact absurd hp.length_le (by simp)

end Develops

namespace Job

variable {j : Job σ} {s : Session σ} {d : List Name}

/-- Every stage of a development install. -/
theorem stagewise_develops (he : j.executor.WritesIn Mode.develop.Region) (d : List Name) :
    j.Stagewise j.layout.releaseDir (fun s => s.top.Plain ∧ s.spelled j.layout.root = d) (Develops j.layout d) where
  refl hs := .refl hs.1
  trans := .trans
  keeps hs h := ⟨h.plain, (h.spelled _).trans hs.2⟩
  call := by
    rintro s c ⟨hs, rfl⟩ hcwd
    refine .of_alters ((Run.callChecked_alters he hs Layout.isName_release hcwd).mono ?_)
    rintro p (hgenerated | rfl)
    · exact .inr (.inl hgenerated)
    · exact .inr (.inr ⟨Call.convertedReadme, by simp [Layout.developFiles], rfl⟩)
  archive := by
    rintro s ⟨hs, rfl⟩
    refine .of_alters (((archiveGenerated_leaves hs Layout.spelled_releaseDir_ne).alters hs).mono ?_)
    rintro p (rfl | rfl)
    · rw [Layout.spelled_releaseDir]
      exact .inr (.inr ⟨j.layout.archiveFileName, by simp [Layout.developFiles], rfl⟩)
    · exact .inl rfl
  promote := by
    rintro s ⟨hs, rfl⟩
    refine .of_promotes ?_
    rw [← Layout.spelled_releaseDir]
    exact Staging.promoteGenerated_promotes _ hs
  copy := by
    rintro s ⟨hs, rfl⟩
    refine .of_alters ((Staging.copyMetadata_alters hs j.config).mono ?_)
    rintro p ⟨name, hname, rfl⟩
    rw [Layout.spelled_releaseDir]
    exact .inr (.inr ⟨name, List.mem_append_left _ hname, rfl⟩)

theorem develop_develops (he : j.executor.WritesIn Mode.develop.Region) (hs : s.store.top.Plain)
    (hroot : s.store.Reaches j.layout.root d) : Develops j.layout d s.store (j.develop s).2.store := by
  have h := stagewise_develops he d
  have hd := (hroot.eq_spelled hs.linkFree).symm
  have hdirs := (makeOutputDirs_growsIn (j := j) hs).outputDirs hs hroot
  refine h.bind ⟨hs, hd⟩ (.of_growsIn hdirs) fun _ s₁ _ hs₁ => ?_
  refine h.bind hs₁ (h.generateAndStage hs₁ .develop) fun _ s₂ _ hs₂ => ?_
  refine h.bind hs₂ (h.runSetup hs₂ _) fun _ s₃ _ hs₃ => ?_
  exact h.bind hs₃ (h.progress hs₃ _) fun _ s₄ _ hs₄ => h.refl hs₄

end Job

theorem package_develops {e : Executor σ} (he : e.WritesIn Mode.develop.Region) {r : Request}
    (hmode : r.mode = .develop) {root : Path} (label : Label) {s : Session σ} {d : List Name}
    (hs : s.store.top.Plain) (hroot : s.store.Reaches root d) :
    Develops ⟨root, r.version, label⟩ d s.store (package e r root label s).2.store := by
  refine relates_bind (R := fun u v : Session σ => Develops ⟨root, r.version, label⟩ d u.store v.store) .trans ?_
    fun _ t hfree _ => ?_
  · rw [Run.ofWork_store, Job.requireNoWorkDir, require_store]
    exact .refl hs
  obtain ⟨-, hstore⟩ := require_eq_ok.1 (ofWork_eq_ok hfree).1
  rw [hstore] at hs hroot
  refine relates_bind (R := fun u v : Session σ => Develops ⟨root, r.version, label⟩ d u.store v.store) .trans
    (.refl hs) fun config u hload _ => ?_
  obtain ⟨-, rfl⟩ := outcome_inj.1 hload
  refine relates_bind (R := fun u v : Session σ => Develops ⟨root, r.version, label⟩ d u.store v.store) .trans ?_
    fun _ v hsay _ => ?_
  · rw [Job.progress, Run.progress_store]
    exact .refl hs
  rw [← (Run.progress_eq_ok hsay).1] at hs hroot
  rw [hmode]
  exact Job.develop_develops (j := ⟨e, config, ⟨root, r.version, label⟩, r.sourceDir, r.blenderDir, r.quiet⟩)
    he hs hroot

/-! ## Both modes -/

/-- A release makes the output directories, and then it alters its own places only. -/
theorem package_release_alters {e : Executor σ} (he : e.WorksInside) {r : Request} (hmode : r.mode = .release)
    {root : Path} (label : Label) {s : Session σ} {d : List Name} (hs : s.store.top.Plain)
    (hroot : s.store.Reaches root d) :
    ∃ base, Files.GrowsIn (fun p => p = Layout.rawModulesAt d ∨ p = Layout.releaseAt d) s.store base ∧
      base.AltersIn (Layout.MayAlter ⟨root, r.version, label⟩ d .release) (package e r root label s).2.store := by
  obtain ⟨failure, t, hrun, -, hgrows⟩ | ⟨base, d', begun, hbegun, hend⟩ :=
    package_release_cases he hmode root label hs
  · rw [hrun]
    exact ⟨t.store, hgrows.outputDirs hs hroot, .refl hgrows.plain⟩
  · have hgrows := hbegun.grows
    obtain rfl : d' = d := by
      rw [← hbegun.site.spelled, hroot.eq_spelled hs.linkFree, Store.spelled_congr hgrows.cwd]
    refine ⟨base, hgrows.outputDirs hs hroot, ?_⟩
    have hmade := ChangesIn.put hbegun.site.plain d' (Layout.isName_work r.version) .emptyDir
    have hbase : base.AltersIn (Layout.MayAlter ⟨root, r.version, label⟩ d' .release) begun := by
      rw [hbegun.store]
      exact ⟨rfl, hmade.mono fun _ => .inl⟩
    obtain ⟨failure, t, hrun, hbuilds⟩ | ⟨outcome, t, hrun, hreleases⟩ := hend
    · rw [hrun]
      exact hbase.trans (hbuilds.alters.mono fun p => Or.imp Inside.isPrefix .inl)
    · rw [hrun]
      refine hbase.trans (hreleases.alters (fun p => ?_) fun p hp => .inr (.inr hp))
      exact Or.imp_right .inl

/-- What a run of a mode spares: all that stood outside its places, for a release everything outside them but
the output directories, and what other versions have published. -/
structure Layout.Spares (l : Layout) (d : List Name) (mode : Mode) (s t : Node) : Prop where
  stood : ∀ p, s.look p ≠ none → t.look p ≠ s.look p → l.MayAlter d mode p
  free : mode = .release → ∀ p, s.look p = none → t.look p ≠ none →
    l.MayAlter d mode p ∨ (p = rawModulesAt d ∨ p = releaseAt d) ∧ t.look p = some .dir
  others : ∀ m : Layout, m.version ≠ l.version → t.look (m.archiveAt d) = s.look (m.archiveAt d) ∧
    (s.look (m.distAt d) ≠ none → ∀ p, m.distAt d <+: p → t.look p = s.look p)

namespace Layout.Spares

variable {l : Layout} {d : List Name} {s base t : Store}

theorem of_release (hgrows : Files.GrowsIn (fun p => p = rawModulesAt d ∨ p = releaseAt d) s base)
    (halters : base.AltersIn (l.MayAlter d .release) t) : l.Spares d .release s.top t.top where
  stood p hstood hchanged := by
    obtain ⟨seen, hseen⟩ := Option.ne_none_iff_exists'.1 hstood
    refine Classical.byContradiction fun hp => hchanged ?_
    rw [halters.look hp, hgrows.grows.look_eq hseen, hseen]
  free _ p hnone hmade := by
    refine Classical.or_iff_not_imp_left.2 fun hp => ?_
    rw [halters.look hp] at hmade ⊢
    rcases hgrows.grows.look p with heq | ⟨-, hdir⟩
    · exact absurd (heq.trans hnone) hmade
    · refine ⟨Classical.byContradiction fun hother => hmade ?_, hdir⟩
      rw [hgrows.look p hother, hnone]
  others m hne := by
    refine ⟨?_, fun _ p hp => ?_⟩
    · rw [halters.look (MayAlter.not_archiveAt hne), hgrows.look]
      rintro (heq | heq)
      · exact absurd (congrArg List.length heq) (by simp [archiveAt])
      · have hrelease : releaseAt d <+: m.archiveAt d := heq ▸ List.prefix_rfl
        exact not_rawModulesAt_of_releaseAt hrelease rawModulesAt_isPrefix_archiveAt
    · rw [halters.look (MayAlter.not_distAt hne hp), hgrows.look]
      rintro (rfl | rfl)
      · exact not_rawModulesAt_of_releaseAt (releaseAt_isPrefix_distAt.trans hp) List.prefix_rfl
      · exact absurd hp.length_le (by simp [distAt, versionAt])

theorem of_develop (h : Develops l d s t) : l.Spares d .develop s.top t.top where
  stood p hstood hchanged := Classical.byContradiction fun hp => hchanged (h.adds.look_eq hp hstood)
  free := nofun
  others m hne := by
    refine ⟨Store.AltersIn.look h.adds ?_, fun hdist p hp => ?_⟩
    · rintro (hat | ⟨heq | hrelease, -⟩)
      · exact hat.not_archiveAt hne
      · exact absurd (congrArg List.length heq) (by simp [archiveAt])
      · exact not_rawModulesAt_of_releaseAt hrelease rawModulesAt_isPrefix_archiveAt
    · refine h.keeps (l.version_notMem_developFiles m.version) (fun hnone => hdist ?_)
        (versionAt_isPrefix_distAt.trans hp)
      have hversion : s.top.look (m.versionAt d) ≠ some .dir := by rw [versionAt, hnone]; simp
      exact look_below_of_not_dir hversion _ []

end Layout.Spares

/-- However it ends, a run whose tools keep to the region of its mode spares the rest of the tree. -/
theorem package_spares {e : Executor σ} {r : Request} (he : e.WritesIn r.mode.Region) {root : Path} (label : Label)
    {s : Session σ} {d : List Name} (hs : s.store.top.Plain) (hroot : s.store.Reaches root d) :
    Layout.Spares ⟨root, r.version, label⟩ d r.mode s.store.top (package e r root label s).2.store.top := by
  cases hmode : r.mode with
  | release =>
    rw [hmode] at he
    obtain ⟨base, hgrows, halters⟩ := package_release_alters he hmode label hs hroot
    exact .of_release hgrows halters
  | develop =>
    rw [hmode] at he
    exact .of_develop (package_develops he hmode label hs hroot)

theorem small_release_spares :
    (Executor.putting smallTree).WritesIn smallRequest.mode.Region ∧ smallCheckout.Plain ∧
      Store.Reaches ⟨smallCheckout, []⟩ ⟨"/r"⟩ [Bytes.ofString "r"] ∧
      Layout.Spares ⟨⟨"/r"⟩, .v279, smallLabel⟩ [Bytes.ofString "r"] .release smallCheckout
        (package (Executor.putting smallTree) smallRequest ⟨"/r"⟩ smallLabel
          (.start ⟨smallCheckout, []⟩ () ⟨none, []⟩ false)).2.store.top := by
  have he : (Executor.putting smallTree).WritesIn smallRequest.mode.Region :=
    Executor.worksInside_putting plain_smallTree
  have hroot : Store.Reaches ⟨smallCheckout, []⟩ ⟨"/r"⟩ [Bytes.ofString "r"] := ⟨rfl, rfl⟩
  exact ⟨he, plain_smallCheckout, hroot, package_spares (r := smallRequest)
    (s := .start ⟨smallCheckout, []⟩ () ⟨none, []⟩ false) he smallLabel plain_smallCheckout hroot⟩

end StubRelease
