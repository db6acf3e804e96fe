/-
# StubRelease.Proofs.Aggregates -- the tarballs of a batch

A batch packs its outputs after the last of its versions. Main statement: when it succeeds, the two tarballs
unpack to the directories beside them as they stand then, and these hold the archive and the distributions of every
version of the batch; when a version fails, what stood at the tarballs' places stands as it was
(`aggregates_follow_success`). The one thing that can come there is a directory, where the root itself is written
through a directory of that name.
-/
import StubRelease.Proofs.Batches
import StubRelease.Proofs.Producing
import StubRelease.Proofs.Tarballs

namespace StubRelease

open Sequence Node
open Route (hopsOf)

variable {σ : Type}

/-! ## Tarballs and releases -/

namespace Layout

variable {l : Layout} {d p : List Name} {name : String}

theorem work_ne_tarball (v : Version) : ∀ name ∈ packedNames,
    Bytes.ofString ("tmp-" ++ v.text) ≠ Bytes.ofString (name ++ ".tar.gz") := by
  cases v <;> decide

theorem not_tarballAt_of_rawModulesAt (hname : name ∈ packedNames) (hp : rawModulesAt d <+: p) :
    ¬ tarballAt d name <+: p := fun htarball =>
  packed_ne_tarball rawModulesName (by decide) _ hname (entry_isPrefix_inj hp htarball)

theorem not_tarballAt_of_releaseAt (hname : name ∈ packedNames) (hp : releaseAt d <+: p) :
    ¬ tarballAt d name <+: p := fun htarball =>
  packed_ne_tarball releaseName (by decide) _ hname (entry_isPrefix_inj hp htarball)

theorem not_tarballAt_of_workAt (hname : name ∈ packedNames) (hp : l.workAt d <+: p) : ¬ tarballAt d name <+: p :=
  fun htarball => work_ne_tarball l.version _ hname (entry_isPrefix_inj hp htarball)

end Layout

/-! ## What a release leaves alone -/

/-- However a release ends, outside its working directory, its archive and what it publishes it has made directories
at most. -/
structure Layout.KeepsRest (l : Layout) (s t : Store) : Prop where
  cwd : t.cwd = s.cwd
  plain : t.top.Plain
  look : ∀ p, ¬ l.MayAlter (s.spelled l.root) .release p → t.top.look p = s.top.look p ∨
    s.top.look p = none ∧ t.top.look p = some .dir ∧ Layout.OutputPlace s l.root p

namespace Layout.KeepsRest

variable {l : Layout} {s base begun t : Store}

theorem of_growsIn (h : Files.GrowsIn (OutputPlace s l.root) s t) : l.KeepsRest s t where
  cwd := h.cwd
  plain := h.plain
  look p _ := by
    by_cases hplace : OutputPlace s l.root p
    · exact (h.grows.look p).imp_right fun ⟨hnone, hdir⟩ => ⟨hnone, hdir, hplace⟩
    · exact .inl (h.look p hplace)

theorem of_begun {d : List Name} (h : Job.Begun l s base d begun) (hspelled : d = s.spelled l.root)
    (halters : begun.AltersIn (l.MayAlter d .release) t) : l.KeepsRest s t where
  cwd := by
    rw [halters.cwd, h.store]
    exact h.grows.cwd
  plain := halters.plain
  look p hp := by
    subst hspelled
    have hbegun : begun.top.look p = base.top.look p := by
      rw [h.store]
      exact look_put_elsewhere base.top _ fun hwork => hp (.inl hwork)
    rw [halters.look hp, hbegun]
    exact (of_growsIn h.grows).look p hp

end Layout.KeepsRest

theorem package_release_keepsRest {e : Executor σ} (he : e.WorksInside) {r : Request} (hmode : r.mode = .release)
    (root : Path) (label : Label) {s : Session σ} (hs : s.store.top.Plain) :
    Layout.KeepsRest ⟨root, r.version, label⟩ s.store (package e r root label s).2.store := by
  obtain ⟨failure, t, hrun, -, hgrows⟩ | ⟨base, d, begun, hbegun, hend⟩ := package_release_cases he hmode root label hs
  · rw [hrun]
    exact .of_growsIn hgrows
  · have hspelled : d = s.store.spelled root := by
      rw [← hbegun.site.spelled, Store.spelled_congr hbegun.grows.cwd]
    obtain ⟨failure, t, hrun, hbuilds⟩ | ⟨outcome, t, hrun, hreleases⟩ := hend
    · rw [hrun]
      exact .of_begun hbegun hspelled (hbuilds.alters.mono fun p hp => hp.imp Inside.isPrefix .inl)
    · rw [hrun]
      exact .of_begun hbegun hspelled (hreleases.alters (fun p hp => hp.imp_right .inl) fun p hp => .inr (.inr hp))

/-! ## What a release delivers -/

/-- The archive and the distributions of a release. -/
structure Layout.Delivered (l : Layout) (d : List Name) (s : Store) : Prop where
  archive : ∃ content executable, s.top.look (l.archiveAt d) = some (.file content executable)
  dist : s.top.look (l.distAt d) = some .dir

/-- Releases of other versions leave what was delivered. -/
theorem Layout.Delivered.after {l m : Layout} {s t : Store} (hne : m.version ≠ l.version) (hroot : m.root = l.root)
    (h : m.Delivered (s.spelled m.root) s) (hkeeps : l.KeepsRest s t) : m.Delivered (s.spelled m.root) t := by
  rw [hroot] at h ⊢
  have hkept {p : List Name} (hp : ¬ l.MayAlter (s.spelled l.root) .release p) (hstood : s.top.look p ≠ none) :
      t.top.look p = s.top.look p := by
    refine (hkeeps.look p hp).resolve_right ?_
    rintro ⟨hnone, -⟩
    exact hstood hnone
  obtain ⟨content, executable, harchive⟩ := h.archive
  refine ⟨⟨content, executable, ?_⟩, ?_⟩
  · rw [hkept (fun hat => hat.not_archiveAt hne) (by simp [harchive]), harchive]
  · rw [hkept (fun hat => hat.not_distAt hne List.prefix_rfl) (by simp [h.dist]), h.dist]

/-- No tarball stands where an archive or distributions stand. -/
theorem Layout.Delivered.packed {l : Layout} {d : List Name} {s t : Store} (h : l.Delivered d s)
    (halters : s.AltersIn (fun p => ∃ name ∈ Layout.packedNames, p = Layout.tarballAt d name) t) :
    l.Delivered d t := by
  obtain ⟨content, executable, harchive⟩ := h.archive
  constructor
  case archive =>
    refine ⟨content, executable, (halters.look ?_).trans harchive⟩
    rintro ⟨name, hname, heq⟩
    have hraw : Layout.rawModulesAt d <+: Layout.tarballAt d name := heq ▸ Layout.rawModulesAt_isPrefix_archiveAt
    exact Layout.not_tarballAt_of_rawModulesAt hname hraw List.prefix_rfl
  case dist =>
    refine (halters.look ?_).trans h.dist
    rintro ⟨name, hname, heq⟩
    have hrelease : Layout.releaseAt d <+: Layout.tarballAt d name := heq ▸ Layout.releaseAt_isPrefix_distAt
    exact Layout.not_tarballAt_of_releaseAt hname hrelease List.prefix_rfl

namespace Job

variable {j : Job σ} {s t : Session σ} {d : List Name}

/-- A release in its working directory from its archive to its distributions. -/
def furnish (j : Job σ) : Run σ Unit := do
  let _ ← Run.ofWork (Staging.promoteGenerated j.executor.order j.layout.workDir)
  Run.ofWork (Staging.copyMetadata j.layout.workDir j.config)
  j.progress Progress.converting
  Staging.convertReadme j.executor j.layout.workDir j.config
  j.runSetup j.layout.workDir SetupCommand.forRelease

theorem build_eq (j : Job σ) : j.build j.layout.workDir = (do
    j.produce
    j.furnish
    pure j.layout.archivePath) := by
  simp only [build, generateAndStage, produce, furnish, bind_assoc, pure_bind]

theorem furnish_builds (he : j.executor.WorksInside) (hs : s.store.top.Plain)
    (hd : s.store.spelled j.layout.root = d) : Builds j.layout d s.store (j.furnish s).2.store := by
  have h := stagewise_builds he d
  refine h.bind ⟨hs, hd⟩ ?_ fun _ s₁ _ hs₁ => ?_
  · rw [Run.ofWork_store]
    exact h.promote ⟨hs, hd⟩
  refine h.bind hs₁ ?_ fun _ s₂ _ hs₂ => ?_
  · rw [Run.ofWork_store]
    exact h.copy hs₁
  refine h.bind hs₂ (h.progress hs₂ _) fun _ s₃ _ hs₃ => ?_
  exact h.bind hs₃ (h.convertReadme hs₃) fun _ s₄ _ hs₄ => h.runSetup hs₄ _

/-- Once it was produced the archive is a file in its place. -/
theorem produce_files (he : j.executor.WorksInside) (hs : s.store.top.Plain)
    (hd : s.store.spelled j.layout.root = d) {a : Unit} (h : j.produce s = (.ok a, t)) :
    t.store.top.Plain ∧ t.store.spelled j.layout.root = d ∧
      ∃ content executable, t.store.top.look (j.layout.archiveAt d) = some (.file content executable) := by
  have hw := stagewise_builds he d
  obtain ⟨_, s₁, hsay, h⟩ := bind_eq_ok.1 h
  obtain ⟨_, s₂, hcall, h⟩ := bind_eq_ok.1 h
  obtain ⟨_, s₃, hsay', h⟩ := bind_eq_ok.1 h
  have h₁ : s₁.store.top.Plain ∧ s₁.store.spelled j.layout.root = d := by
    rw [(Run.progress_eq_ok hsay).1]
    exact ⟨hs, hd⟩
  have hcalled := hw.call (s := s₁) (c := .generator j.config .release j.layout.version j.sourceDir j.blenderDir
    j.layout.workDir) h₁ rfl
  rw [hcall] at hcalled
  have h₃ : s₃.store.top.Plain ∧ s₃.store.spelled j.layout.root = d := by
    rw [(Run.progress_eq_ok hsay').1]
    exact hw.keeps h₁ hcalled
  have hbuilds := archiveGenerated_builds h₃.1 h₃.2
  have hleaves := archiveGenerated_leaves h₃.1 (j := j) Layout.spelled_workDir_ne
  rw [h] at hbuilds hleaves
  refine ⟨hbuilds.plain, (hbuilds.alters.spelled _).trans h₃.2, ?_⟩
  cases hleaves with
  | archive content executable dir beside short fits rawModules replaced store =>
    have hraw := KeepsDirs.drop beside _ rawModules
    rw [h₃.2] at hraw store
    refine ⟨content, executable, ?_⟩
    rw [store, Store.top_put, Store.top_drop, Layout.archiveAt, look_put hraw]
    rfl

/-- A release that was built has its archive. -/
theorem build_files (he : j.executor.WorksInside) (hs : s.store.top.Plain)
    (hd : s.store.spelled j.layout.root = d) {path : Path} (h : j.build j.layout.workDir s = (.ok path, t)) :
    ∃ content executable, t.store.top.look (j.layout.archiveAt d) = some (.file content executable) := by
  rw [build_eq] at h
  obtain ⟨_, u, hproduce, h⟩ := bind_eq_ok.1 h
  obtain ⟨_, v, hfurnish, h⟩ := bind_eq_ok.1 h
  obtain ⟨-, rfl⟩ := outcome_inj.1 h
  obtain ⟨hu, hspelled, content, executable, hfile⟩ := produce_files he hs hd hproduce
  have hbuilds := furnish_builds he hu hspelled
  rw [hfurnish] at hbuilds
  rcases hbuilds.archive with heq | ⟨-, hreplaced⟩
  · exact ⟨content, executable, heq.trans hfile⟩
  · exact hreplaced

end Job

/-- A release that is finished has delivered. -/
theorem package_release_delivers {e : Executor σ} (he : e.WorksInside) {r : Request} (hmode : r.mode = .release)
    {root : Path} {label : Label} {s t : Session σ} (hs : s.store.top.Plain) {outcome : Outcome}
    (h : package e r root label s = (.ok outcome, t)) :
    Layout.Delivered ⟨root, r.version, label⟩ (s.store.spelled root) t.store := by
  rw [Job.package_release_eq e hmode] at h
  obtain ⟨failure, u, hfailed, -⟩ | ⟨config, base, d, u, -, hprepared, -, hbegun⟩ :=
    Job.prepare_cases e r root label hs
  · rw [bind_of_error _ hfailed] at h
    cases (outcome_inj.1 h).1
  rw [bind_of_ok _ hprepared] at h
  obtain ⟨archive, v, hbuild, h⟩ := bind_eq_ok.1 h
  obtain ⟨dist, w, hpublish, h⟩ := bind_eq_ok.1 h
  obtain ⟨-, rfl⟩ := outcome_inj.1 h
  obtain rfl : d = s.store.spelled root := by
    rw [← hbegun.site.spelled, Store.spelled_congr hbegun.grows.cwd]
  have hworking := hbegun.working
  have hu := hworking.spelled hbegun.site
  obtain ⟨content, executable, hfile⟩ := Job.build_files
    (j := ⟨e, config, ⟨root, r.version, label⟩, r.sourceDir, r.blenderDir, r.quiet⟩) he hworking.plain hu hbuild
  have hbuilds := Job.build_builds
    (j := ⟨e, config, ⟨root, r.version, label⟩, r.sourceDir, r.blenderDir, r.quiet⟩) hworking.plain hu he
  rw [hbuild] at hbuilds
  obtain ⟨-, failure, t, hfailed, -⟩ | ⟨hpublishable, t, hdone, hfinishes⟩ := Job.publish_cases
    (j := ⟨e, config, ⟨root, r.version, label⟩, r.sourceDir, r.blenderDir, r.quiet⟩) hbegun.site
      (hworking.builds hbegun.site hbuilds) (Job.build_eq_ok hbuild).2
  · cases (outcome_inj.1 (hfailed.symm.trans hpublish)).1
  obtain rfl := (outcome_inj.1 (hdone.symm.trans hpublish)).2
  refine ⟨⟨content, executable, ?_⟩, ?_⟩
  · rw [hfinishes.adds.look_eq Layout.not_workAt_isPrefix_archiveAt (by simp [hfile]), hfile]
  · have hdist := hfinishes.dist []
    rwa [List.append_nil, List.append_nil, hpublishable.built] at hdist

/-! ## The releases of a batch -/

/-- What came to the places of the tarballs: nothing, or a directory on the way of the root. -/
structure KeepsTarballs (root : Path) (s t : Store) : Prop where
  cwd : t.cwd = s.cwd
  plain : t.top.Plain
  look : ∀ name ∈ Layout.packedNames, ∀ p, Layout.tarballAt (s.spelled root) name <+: p →
    t.top.look p = s.top.look p ∨ s.top.look p = none ∧ t.top.look p = some .dir ∧
      OnWay (s.origin (Route.ofBytes root.bytes)) (hopsOf root.bytes) p

namespace KeepsTarballs

variable {root : Path} {s t u : Store}

theorem refl (hs : s.top.Plain) : KeepsTarballs root s s := ⟨rfl, hs, fun _ _ _ _ => .inl rfl⟩

theorem trans (h : KeepsTarballs root s t) (h' : KeepsTarballs root t u) : KeepsTarballs root s u where
  cwd := h'.cwd.trans h.cwd
  plain := h'.plain
  look name hname p hp := by
    have hlater := h'.look name hname p (by rwa [Store.spelled_congr h.cwd])
    rw [Store.origin_congr h.cwd] at hlater
    rcases h.look name hname p hp with heq | ⟨hnone, hdir, hway⟩
    · rwa [heq] at hlater
    · rcases hlater with heq | ⟨hnone', -⟩
      · exact .inr ⟨hnone, heq.trans hdir, hway⟩
      · rw [hdir] at hnone'
        cases hnone'

theorem of_keepsRest {l : Layout} (h : l.KeepsRest s t) : KeepsTarballs l.root s t where
  cwd := h.cwd
  plain := h.plain
  look name hname p hp := by
    have hraw (hat : Layout.rawModulesAt (s.spelled l.root) <+: p) : False :=
      Layout.not_tarballAt_of_rawModulesAt hname hat hp
    have hrelease (hat : Layout.releaseAt (s.spelled l.root) <+: p) : False :=
      Layout.not_tarballAt_of_releaseAt hname hat hp
    have hapart : ¬ l.MayAlter (s.spelled l.root) .release p := by
      rintro (hwork | rfl | rfl | hdist)
      · exact Layout.not_tarballAt_of_workAt hname hwork hp
      · exact hraw Layout.rawModulesAt_isPrefix_archiveAt
      · exact hrelease Layout.releaseAt_isPrefix_versionAt
      · exact hrelease (Layout.releaseAt_isPrefix_distAt.trans hdist)
    rcases h.look p hapart with heq | ⟨hnone, hdir, hway | rfl | rfl⟩
    · exact .inl heq
    · exact .inr ⟨hnone, hdir, hway⟩
    · exact (hraw List.prefix_rfl).elim
    · exact (hrelease List.prefix_rfl).elim

/-- Where the root exists nothing comes to the places of the tarballs. -/
theorem look_eq (h : KeepsTarballs root s t) (hs : s.top.LinkFree) {d : List Name} (hroot : s.Reaches root d)
    {name : String} (hname : name ∈ Layout.packedNames) {p : List Name}
    (hp : Layout.tarballAt (s.spelled root) name <+: p) : t.top.look p = s.top.look p := by
  refine (h.look name hname p hp).resolve_right ?_
  rintro ⟨hnone, -, hway⟩
  rw [hroot.look_of_onWay hs hway] at hnone
  cases hnone

end KeepsTarballs

section Releases

variable {e : Executor σ} (he : e.WorksInside) {b : Batch} {root : Path} {label : Label} {s t : Session σ}
  {versions : List Version} (hs : s.store.top.Plain)

include he hs

/-- One version of a batch leaves the tarballs. -/
theorem package_keepsTarballs (v : Version) :
    KeepsTarballs root s.store (package e (b.request v) root label s).2.store :=
  .of_keepsRest (package_release_keepsRest he rfl root label hs)

theorem releaseEach_keepsTarballs : KeepsTarballs root s.store (releaseEach e b root label versions s).2.store := by
  -- on the versions: one that fails is the last one
  induction versions generalizing s with
  | nil => exact .refl hs
  | cons v rest ih =>
    have hfirst : KeepsTarballs root s.store (package e (b.request v) root label s).2.store :=
      package_keepsTarballs he hs v
    rw [releaseEach, run_bind]
    cases hrun : package e (b.request v) root label s with
    | mk result u =>
      rw [hrun] at hfirst
      cases result with
      | error failure => exact hfirst
      | ok outcome => exact hfirst.trans (ih hfirst.plain)

/-- When all versions are released, each of them has delivered, and what was delivered before is there. -/
theorem releaseEach_delivers (hrun : releaseEach e b root label versions s = (.ok (), t)) {v : Version}
    (hv : v ∈ versions ∨ Layout.Delivered ⟨root, v, label⟩ (s.store.spelled root) s.store) :
    Layout.Delivered ⟨root, v, label⟩ (s.store.spelled root) t.store := by
  -- on the versions: a delivery is made by its own release, and no later one touches it
  induction versions generalizing s with
  | nil =>
    obtain ⟨-, rfl⟩ := outcome_inj.1 hrun
    exact hv.resolve_left List.not_mem_nil
  | cons w rest ih =>
    obtain ⟨outcome, u, hpackage, hrest⟩ := bind_eq_ok.1 hrun
    have hkeeps := package_release_keepsRest (r := b.request w) he rfl root label hs
    have hdelivers := package_release_delivers (r := b.request w) he rfl hs hpackage
    rw [hpackage] at hkeeps
    have hspelled : u.store.spelled root = s.store.spelled root := Store.spelled_congr hkeeps.cwd root
    rw [← hspelled]
    refine ih hkeeps.plain hrest ?_
    rw [hspelled]
    by_cases hversion : v = w
    · subst hversion
      exact .inr hdelivers
    · rcases hv with hmem | hdelivered
      · exact .inl ((List.mem_cons.1 hmem).resolve_left hversion)
      · exact .inr (Layout.Delivered.after (l := ⟨root, w, label⟩) (m := ⟨root, v, label⟩) hversion rfl hdelivered
          hkeeps)

end Releases

/-! ## The batch -/

/-- A version that fails ends the releases of a batch. -/
theorem releaseEach_stops {e : Executor σ} {b : Batch} {root : Path} {label : Label} {earlier later : List Version}
    {v : Version} {s t u : Session σ} {failure : Failure}
    (hearlier : releaseEach e b root label earlier s = (.ok (), u))
    (hfailed : package e (b.request v) root label u = (.error failure, t)) :
    releaseEach e b root label (earlier ++ v :: later) s = (.error failure, t) := by
  induction earlier generalizing s with
  | nil =>
    obtain ⟨-, rfl⟩ := outcome_inj.1 hearlier
    exact bind_of_error _ hfailed
  | cons w rest ih =>
    obtain ⟨outcome, x, hpackage, hrest⟩ := bind_eq_ok.1 hearlier
    exact (bind_of_ok _ hpackage).trans (ih hrest)

/-- Saying which tarballs there are always succeeds. -/
theorem sayTarballs_cases (tarballs : List Path) (s : Session σ) :
    ∃ t, sayTarballs tarballs s = (.ok (), t) ∧ t.store = s.store := by
  induction tarballs generalizing s with
  | nil => exact ⟨s, rfl, rfl⟩
  | cons tarball rest ih =>
    obtain ⟨u, hsay, hstore, -⟩ := Run.progress_cases false (Progress.tarball tarball) s
    obtain ⟨t, hrest, hstore'⟩ := ih u
    exact ⟨t, (bind_of_ok _ hsay).trans hrest, hstore'.trans hstore⟩

/-- What a batch says of its tarballs. -/
def sayPacked (b : Batch) (made : List Path) : Run σ (List Path) := do
  if b.quiet then pure ()
  else
    Run.say (Progress.packaged b.versions.length)
    sayTarballs made
  pure made

theorem sayPacked_cases (b : Batch) (made : List Path) (s : Session σ) :
    ∃ t, sayPacked b made s = (.ok made, t) ∧ t.store = s.store := by
  rw [sayPacked]
  cases b.quiet with
  | true => exact ⟨s, rfl, rfl⟩
  | false =>
    obtain ⟨u, hsay, hstore, -⟩ := Run.progress_cases false (Progress.packaged b.versions.length) s
    have hsay : Run.say (Progress.packaged b.versions.length) s = (.ok (), u) := hsay
    obtain ⟨t, hsaid, hstore'⟩ := sayTarballs_cases made u
    refine ⟨t, ?_, hstore'.trans hstore⟩
    simp only [Bool.false_eq_true, if_false]
    rw [bind_of_ok _ hsay, bind_of_ok _ hsaid]
    rfl

theorem packOutputs_eq (order : Listing.Order) (b : Batch) (root : Path) : packOutputs (σ := σ) order b root =
    Run.ofWork (if b.aggregate then Archive.aggregateOutputs order root else pure []) >>= sayPacked b := by
  rw [packOutputs]
  cases b.aggregate <;> rfl

/-- After its last version a batch packs its outputs, if it is asked to, and then it only says so. -/
theorem packOutputs_eq_ok_iff {order : Listing.Order} {b : Batch} {root : Path} {s : Session σ} {paths : List Path}
    {after : Store} : (∃ t, packOutputs order b root s = (.ok paths, t) ∧ t.store = after) ↔
      (if b.aggregate then Archive.aggregateOutputs order root else pure []) s.store = (.ok paths, after) := by
  rw [packOutputs_eq]
  constructor
  · rintro ⟨t, h, rfl⟩
    obtain ⟨made, u, hmade, h⟩ := bind_eq_ok.1 h
    obtain ⟨v, hsaid, hstore⟩ := sayPacked_cases b made u
    obtain ⟨hpaths, rfl⟩ := outcome_inj.1 (hsaid.symm.trans h)
    rw [hstore, ← Except.ok.inj hpaths]
    exact (ofWork_eq_ok hmade).1
  · intro h
    obtain ⟨t, hsaid, hstore⟩ := sayPacked_cases b paths { s with store := after }
    refine ⟨t, ?_, hstore⟩
    rw [← hsaid]
    refine bind_of_ok _ ?_
    rw [ofWork_eq, h]

/-- A batch packs its outputs once all its versions are released. If it succeeds, the two tarballs unpack to the
directories beside them as they stand, and these hold the archive and the distributions of every version. If a
version fails, so does the batch, and what stood at the places of the tarballs, and below, is as it was: no more
than a directory can have come there, where the root is written through one of that name, and nothing where the root
existed. -/
theorem aggregates_follow_success {e : Executor σ} (he : e.WorksInside) {b : Batch} (haggregate : b.aggregate = true)
    (root : Path) (label : Label) {s : Session σ} (hs : s.store.top.Plain) :
    (∀ paths t, buildAll e b root label s = (.ok paths, t) →
      paths = [Archive.tarballPath root Layout.rawModulesName, Archive.tarballPath root Layout.releaseName] ∧
        ∃ d, t.store.Reaches root d ∧ (∀ name ∈ Layout.packedNames, t.store.HasTarball d name) ∧
          ∀ v ∈ b.versions, Layout.Delivered ⟨root, v, label⟩ d t.store) ∧
    (∀ earlier v later u failure t, b.versions = earlier ++ v :: later →
      releaseEach e b root label earlier s = (.ok (), u) →
      package e (b.request v) root label u = (.error failure, t) →
      buildAll e b root label s = (.error failure, t) ∧
        ∀ name ∈ Layout.packedNames, ∀ p, Layout.tarballAt (s.store.spelled root) name <+: p →
          (t.store.top.look p = s.store.top.look p ∨ s.store.top.look p = none ∧ t.store.top.look p = some .dir ∧
            OnWay (s.store.origin (Route.ofBytes root.bytes)) (hopsOf root.bytes) p) ∧
          (∀ d, s.store.Reaches root d → t.store.top.look p = s.store.top.look p)) := by
  have hsteps : buildAll e b root label =
      releaseEach e b root label b.versions >>= fun _ => packOutputs e.order b root := rfl
  constructor
  · intro paths t h
    rw [hsteps] at h
    obtain ⟨_, u, hreleased, hpacked⟩ := bind_eq_ok.1 h
    have hkeeps : KeepsTarballs root s.store (releaseEach e b root label b.versions s).2.store :=
      releaseEach_keepsTarballs he hs
    rw [hreleased] at hkeeps
    have hspelled : u.store.spelled root = s.store.spelled root := Store.spelled_congr hkeeps.cwd root
    have hnames : ∀ name ∈ Layout.packedNames, name ∈ Layout.packedNames := fun _ => id
    have hmade := packOutputs_eq_ok_iff.1 ⟨t, hpacked, rfl⟩
    rw [if_pos haggregate] at hmade
    obtain ⟨hpaths, hreaches, halters, htarballs⟩ :=
      Archive.tarballs_pack hnames (by decide) hkeeps.plain hspelled hmade
    refine ⟨hpaths, s.store.spelled root, hreaches (by decide), htarballs, ?_⟩
    intro v hv
    have hdelivered := releaseEach_delivers he hs hreleased (.inl hv)
    exact hdelivered.packed halters
  · intro earlier v later u failure t hversions hearlier hfailed
    have hstops : releaseEach e b root label b.versions s = (.error failure, t) := by
      rw [hversions]
      exact releaseEach_stops hearlier hfailed
    have hkeeps : KeepsTarballs root s.store (releaseEach e b root label b.versions s).2.store :=
      releaseEach_keepsTarballs he hs
    rw [hstops] at hkeeps
    refine ⟨bind_of_error _ hstops, ?_⟩
    intro name hname p hp
    refine ⟨hkeeps.look name hname p hp, ?_⟩
    intro d hroot
    exact hkeeps.look_eq hs.linkFree hroot hname hp

/-- A batch of two versions that packs its outputs. -/
def packedBatch : Batch := { smallBatch with aggregate := true }

/-- The batch packs the outputs of its versions, and where the first of them fails no tarball appears. -/
theorem packed_batch_of_small_checkout :
    packedBatch.aggregate = true ∧ smallCheckout.Plain ∧ (Executor.putting smallTree).WorksInside ∧
      (∃ paths t, buildAll (Executor.putting smallTree) packedBatch ⟨"/r"⟩ smallLabel smallSession = (.ok paths, t) ∧
        paths = [⟨"/r/raw_modules.tar.gz"⟩, ⟨"/r/release.tar.gz"⟩] ∧
        ∃ d, t.store.Reaches ⟨"/r"⟩ d ∧ (∀ name ∈ Layout.packedNames, t.store.HasTarball d name) ∧
          ∀ v ∈ packedBatch.versions, Layout.Delivered ⟨⟨"/r"⟩, v, smallLabel⟩ d t.store) ∧
      Executor.failing.WorksInside ∧
      ∃ failure t, package Executor.failing (packedBatch.request .v279) ⟨"/r"⟩ smallLabel smallSession =
          (.error failure, t) ∧
        buildAll Executor.failing packedBatch ⟨"/r"⟩ smallLabel smallSession = (.error failure, t) ∧
        ∀ name ∈ Layout.packedNames, ∀ p,
          Layout.tarballAt [Bytes.ofString "r"] name <+: p → t.store.top.look p = smallCheckout.look p := by
  refine ⟨rfl, plain_smallCheckout, Executor.worksInside_putting plain_smallTree, ?_,
    Executor.worksInside_failing, ?_⟩
  · have hok : (buildAll (Executor.putting smallTree) packedBatch ⟨"/r"⟩ smallLabel smallSession).1.toBool = true := by
      decide +kernel
    cases hrun : buildAll (Executor.putting smallTree) packedBatch ⟨"/r"⟩ smallLabel smallSession with
    | mk result t =>
      rw [hrun] at hok
      cases result with
      | error failure => cases hok
      | ok paths =>
        exact ⟨paths, t, rfl, (aggregates_follow_success (s := smallSession)
          (Executor.worksInside_putting plain_smallTree) rfl ⟨"/r"⟩ smallLabel plain_smallCheckout).1 paths t hrun⟩
  · obtain ⟨failure, t, hfailed, -⟩ := failing_fails
    have hroot : smallSession.store.Reaches ⟨"/r"⟩ [Bytes.ofString "r"] := ⟨rfl, rfl⟩
    obtain ⟨hbatch, hkept⟩ := (aggregates_follow_success (b := packedBatch) (s := smallSession)
      Executor.worksInside_failing rfl ⟨"/r"⟩ smallLabel plain_smallCheckout).2 [] .v279 [.v280] smallSession failure t
        rfl rfl hfailed
    rw [← hroot.eq_spelled plain_smallCheckout.linkFree] at hkept
    exact ⟨failure, t, hfailed, hbatch, fun name hname p hp => (hkept name hname p hp).2 _ hroot⟩

/-- The root of the small checkout, written through a directory that has the name of a tarball and does not exist. -/
def tarballDetour : Path := ⟨"/r/raw_modules.tar.gz/.."⟩

/-- A root that is written through a directory with the name of a tarball brings that directory about, even when the
first version fails. -/
theorem failing_batch_on_detour :
    packedBatch.aggregate = true ∧ Executor.failing.WorksInside ∧ smallCheckout.Plain ∧
      (package Executor.failing (packedBatch.request .v279) tarballDetour smallLabel smallSession).1.toBool = false ∧
      let run := buildAll Executor.failing packedBatch tarballDetour smallLabel smallSession
      run.1.toBool = false ∧ run.2.history.length = 1 ∧
        smallCheckout.look (Layout.tarballAt [Bytes.ofString "r"] Layout.rawModulesName) = none ∧
        run.2.store.top.look (Layout.tarballAt [Bytes.ofString "r"] Layout.rawModulesName) = some .dir := by
  have hmade : (Option.any isDir <|
      (buildAll Executor.failing packedBatch tarballDetour smallLabel smallSession).2.store.top.get?
        (Layout.tarballAt [Bytes.ofString "r"] Layout.rawModulesName)) = true := by
    decide +kernel
  exact ⟨rfl, Executor.worksInside_failing, plain_smallCheckout, by decide +kernel, by decide +kernel,
    by decide +kernel, by decide +kernel, look_of_any_isDir hmade⟩

end StubRelease
