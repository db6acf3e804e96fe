/-
# StubRelease.Proofs.Producing -- a release up to its archive

With the imitated tools a release first makes its working directory, has its modules generated there and archives
them. In a checkout in which nothing stands in the way it always comes so far (`Job.produce_archives`), and what it
has then left follows from the checkout (`Layout.archived`). Where the output directories stand already it begins
without making them (`Layout.Site.prepares`).
-/
import StubRelease.Proofs.Failing
import StubRelease.Proofs.Stages

namespace StubRelease

open Sequence Node
open Imitation (tree outName)

variable {σ : Type}

/-! ## Equal stores -/

theorem Store.eq_of_parts {s t : Store} (htop : s.top = t.top) (hcwd : s.cwd = t.cwd) : s = t := by
  obtain ⟨top, cwd⟩ := s
  obtain ⟨top', cwd'⟩ := t
  obtain rfl : top = top' := htop
  obtain rfl : cwd = cwd' := hcwd
  rfl

/-- Stores that look alike everywhere are the same. -/
theorem Store.eq_of_look {s t : Store} (hs : s.top.Plain) (ht : t.top.Plain) (hcwd : s.cwd = t.cwd)
    (h : ∀ p, s.top.look p = t.top.look p) : s = t :=
  eq_of_parts (Node.eq_of_look hs.wellFormed ht.wellFormed h) hcwd

/-! ## The settings -/

/-- Without a configuration file the settings are the standard ones. -/
theorem Config.load_of_no_file {s : Store} {root : Path} (hs : s.top.LinkFree)
    (hnone : ∀ content executable, s.top.look (s.spelled root ++ [Bytes.ofString fileName]) ≠
      some (.file content executable)) : load s root = .ok (standard.resolvedAgainst root) := by
  have hname : IsName (Bytes.ofString fileName) := by decide
  have hfile : s.isFile (path root).bytes = false := by
    rw [Bool.eq_false_iff]
    intro hfound
    obtain ⟨-, -, content, executable, hlook⟩ := Store.finds_of_isFile hname hs hfound
    exact hnone content executable hlook
  rw [load, loadRaw, hfile]
  rfl

/-! ## Up to the archive -/

namespace Layout

/-- The working directory holds what the imitated generator writes. -/
def generated (l : Layout) (d : List Name) (base : Store) : Store :=
  (l.entered d base).put (l.workAt d) outName tree

/-- And that is archived. -/
def archived (l : Layout) (d : List Name) (base : Store) : Store :=
  ((l.generated d base).drop (l.workAt d) (Bytes.ofString l.archiveFileName)).put (rawModulesAt d)
    (Bytes.ofString l.archiveFileName) (l.archiveOf l.workDir)

/-- The path of the working directory houses it while a release is built. -/
theorem Working.houses {l : Layout} {d : List Name} {base s : Store} (h : l.Working d base s) (hsite : l.Site d base)
    {room : Nat} (hfits : l.workDir.bytes.length + room < Route.lengthLimit) (hshort : room ≤ Route.nameLimit + 1) :
    s.Houses (Inside (l.workAt d)) l.workDir (l.workAt d) room where
  no_nul := by
    rw [workDir, Path.mem_bytes_div (isName_work l.version)]
    exact hsite.finds.no_nul
  fits := hfits
  short := hshort
  inside _ hq := hq
  dir := h.stands
  reaches t hedited hstands := by
    refine Store.reaches_div (isName_work l.version) (hsite.reaches (fun p hp => ?_) (hedited.cwd.trans h.cwd))
      (length_work_le l.version) hstands
    have hapart := hsite.not_isPrefix (p := p) (by simp [hp])
    rw [hedited.look p fun hinside => hapart hinside.isPrefix, h.keeps p hp]

namespace Site

variable {l : Layout} {d : List Name} {base other : Store}

theorem entered_look_work (h : l.Site d base) (rest : List Name) :
    (l.entered d base).top.look (l.workAt d ++ rest) = emptyDir.look rest := by
  rw [workAt, List.append_assoc, List.singleton_append, entered, Store.top_put, look_put h.finds.reaches.dir]

theorem entered_look {p : List Name} (hp : ¬ l.workAt d <+: p) :
    (l.entered d base).top.look p = base.top.look p :=
  look_put_elsewhere base.top _ hp

theorem generated_look {p : List Name} (hp : ¬ l.workAt d <+: p) :
    (l.generated d base).top.look p = base.top.look p := by
  refine (look_put_elsewhere _ _ fun hat => ?_).trans (entered_look hp)
  exact hp ((List.prefix_append _ _).trans hat)

theorem entered_plain (h : l.Site d base) : (l.entered d base).top.Plain :=
  h.plain.put _ (isName_work l.version) .emptyDir

theorem generated_plain (h : l.Site d base) : (l.generated d base).top.Plain :=
  h.entered_plain.put _ isName_generated Imitation.plain_tree

/-- The path of the working directory houses what the imitated generator writes there, when the archive's path
can be read. -/
theorem houses (h : l.Site d base) (hfits : l.archivePath.bytes.length < Route.lengthLimit) :
    (l.entered d base).Houses (Inside (l.workAt d)) l.workDir (l.workAt d) 31 :=
  h.entered_working.houses h (Nat.lt_of_le_of_lt l.length_workDir_lt hfits) (by decide)

/-- What the imitated generator leaves. -/
theorem generates (h : l.Site d base) (hfits : l.archivePath.bytes.length < Route.lengthLimit) :
    Imitation.generate (l.workDir / generatedName) (l.entered d base) = (.ok (), l.generated d base) := by
  have hnone : (l.entered d base).top.look (l.workAt d ++ [outName]) = none := h.entered_look_work [outName]
  obtain ⟨t, hrun, hedited, htree, hplain⟩ := Imitation.generate_leaves (h.houses hfits) (by decide) (.inl hnone)
  have hdir : (l.entered d base).top.look (l.workAt d) = some .dir := (h.houses hfits).dir
  have hstore : t = l.generated d base := by
    refine Store.eq_of_look (hplain h.entered_plain) h.generated_plain hedited.cwd fun p => ?_
    rw [generated, Store.top_put]
    by_cases hat : l.workAt d ++ [outName] <+: p
    · obtain ⟨rest, rfl⟩ := hat
      rw [look_append, htree, Option.bind_some, List.append_assoc, List.singleton_append, look_put hdir]
    · rw [look_put_elsewhere _ _ hat]
      refine hedited.look p ?_
      rintro ⟨name, hname, hp⟩
      obtain rfl : name = outName := by simpa using hname
      exact hat hp
  rw [hrun, hstore]

theorem generated_working (h : l.Site d base) : l.Working d base (l.generated d base) := by
  have hput := ChangesIn.put h.entered_plain (l.workAt d) isName_generated Imitation.plain_tree
  refine h.entered_working.after (P := (l.workAt d ++ [outName] <+: ·)) ⟨rfl, hput⟩ (fun p hp hat => ?_)
    (not_entry_isPrefix _ _)
  exact absurd ((List.prefix_append _ _).trans hat) (h.not_isPrefix (by simp [hp]))

end Site

end Layout

namespace Job

/-- A release in its working directory until its archive is in its place. -/
def produce (j : Job σ) : Run σ Unit := do
  j.progress Progress.generating
  Run.callChecked j.executor (.generator j.config .release j.layout.version j.sourceDir j.blenderDir j.layout.workDir)
  j.progress (Progress.archiving j.layout.archiveFileName)
  j.archiveGenerated j.layout.workDir

variable {order : Listing.Order} {j : Job (List Call)} (hj : j.executor = Imitation.executor none order)
  {d : List Name} {base : Store} (hsite : j.layout.Site d base) {u v : Session (List Call)}
  (hu : u.store = j.layout.entered d base)

include hj hsite hu

/-- Once its generator was called, a release stands before its archive. -/
theorem produce_eq (hfits : j.layout.archivePath.bytes.length < Route.lengthLimit) :
    ∃ t : Session (List Call), t.store = j.layout.generated d base ∧
      j.produce u = j.archiveGenerated j.layout.workDir t := by
  obtain ⟨s₁, hsay, hstore₁, -⟩ := Run.progress_cases j.quiet Progress.generating u
  have hgenerates := hsite.generates hfits
  rw [← Imitation.effect_generator j.config .release j.layout.version j.sourceDir j.blenderDir] at hgenerates
  have hends : Run.Ends (Run.callChecked (Imitation.executor none order) (.generator j.config .release j.layout.version
      j.sourceDir j.blenderDir j.layout.workDir)) (j.layout.entered d base) (.ok ()) _
      (· = j.layout.generated d base) := Imitation.callChecked_ends hgenerates rfl
  obtain ⟨s₂, hcall, -, hstore₂⟩ := hends s₁ (hstore₁.trans hu)
  obtain ⟨s₃, hsay', hstore₃, -⟩ := Run.progress_cases j.quiet (Progress.archiving j.layout.archiveFileName) s₂
  refine ⟨s₃, hstore₃.trans hstore₂, ?_⟩
  rw [produce, progress, bind_of_ok _ hsay, hj, bind_of_ok _ hcall, progress, bind_of_ok _ hsay']

/-- What an archive that was made says of its name and its place. -/
theorem of_produce_eq_ok (h : j.produce u = (.ok (), v)) :
    j.layout.archivePath.bytes.length < Route.lengthLimit ∧
      (Bytes.ofString j.layout.archiveFileName).length ≤ Route.nameLimit ∧
      base.top.look (j.layout.archiveAt d) ≠ some .dir := by
  have hfits : j.layout.archivePath.bytes.length < Route.lengthLimit := by
    obtain ⟨_, s₁, -, h⟩ := bind_eq_ok.1 h
    obtain ⟨_, s₂, -, h⟩ := bind_eq_ok.1 h
    obtain ⟨_, s₃, -, h⟩ := bind_eq_ok.1 h
    exact fits_of_archiveGenerated h
  obtain ⟨t, ht, hproduce⟩ := produce_eq hj hsite hu hfits
  have hworking := hsite.generated_working
  rw [← ht] at hworking
  have hleaves := archiveGenerated_leaves hworking.plain (j := j) Layout.spelled_workDir_ne
  rw [← hproduce, h] at hleaves
  cases hleaves with
  | archive content executable dir beside short fits rawModules replaced store =>
    rw [hworking.spelled hsite, ht, Layout.Site.generated_look Layout.not_workAt_isPrefix_archiveAt] at replaced
    exact ⟨fits, short, replaced⟩

theorem produce_archives (hfits : j.layout.archivePath.bytes.length < Route.lengthLimit)
    (hshort : (Bytes.ofString j.layout.archiveFileName).length ≤ Route.nameLimit)
    (hreplaced : base.top.look (j.layout.archiveAt d) ≠ some .dir) :
    ∃ t : Session (List Call), j.produce u = (.ok (), t) ∧ t.store = j.layout.archived d base := by
  obtain ⟨t, ht, hproduce⟩ := produce_eq hj hsite hu hfits
  have hworking := hsite.generated_working
  have hname := j.layout.isName_archive
  have hdir := (hsite.houses hfits).dir
  have hhouse : (j.layout.generated d base).Houses (Inside (j.layout.workAt d)) j.layout.workDir
      (j.layout.workAt d) 31 := (hsite.houses hfits).after_below (.put _ _ _ _)
  have hgenerated : (j.layout.generated d base).top.get? (j.layout.workAt d ++ [outName]) = some tree :=
    get?_put_self hdir _ _
  have hout : (j.layout.generated d base).Houses (Inside (j.layout.workAt d)) (j.layout.workDir / Layout.generatedName)
      (j.layout.workAt d ++ [outName]) 26 :=
    hhouse.div Layout.isName_generated (by decide) (look_eq_dir.2 ⟨_, hgenerated⟩)
  have hdraft : (j.layout.generated d base).top.look (j.layout.workAt d ++
      [Bytes.ofString j.layout.archiveFileName]) = none := by
    have hne : outName ≠ Bytes.ofString j.layout.archiveFileName := (j.layout.archive_ne (by decide)).symm
    rw [Layout.generated, Store.top_put, look_put_elsewhere _ _ fun hat => hne (entry_isPrefix_iff.1 hat),
      hsite.entered_look_work]
    rfl
  have hraw : (j.layout.generated d base).Finds j.layout.rawModulesDir j.layout.archiveFileName
      (Layout.rawModulesAt d) := by
    refine ⟨Store.reaches_div Layout.isName_rawModules (hworking.reaches hsite) (by decide)
      (hworking.keeps _ hsite.rawModules), ?_, hfits⟩
    rw [Layout.rawModulesDir, Path.mem_bytes_div Layout.isName_rawModules]
    exact hsite.finds.no_nul
  have hdown : ¬ j.layout.workAt d <+: Layout.rawModulesAt d := Layout.not_workAt_of_rawModulesAt List.prefix_rfl
  obtain ⟨z, harchived, hz⟩ := j.archiveGenerated_eq ht (hhouse.finds Layout.isName_generated (by decide))
    ⟨hhouse.here, hhouse.no_nul, Nat.lt_of_le_of_lt j.layout.length_draft_le hfits⟩ hraw hshort hout.fits hdown
    hgenerated hdraft (by rwa [← Layout.archiveAt, Layout.Site.generated_look Layout.not_workAt_isPrefix_archiveAt])
  exact ⟨_, hproduce.trans harchived, hz⟩

end Job

/-! ## Beginning again -/

theorem Layout.MakesOutputDirs.unique {l : Layout} {s t t' : Store} (h : l.MakesOutputDirs s t)
    (h' : l.MakesOutputDirs s t') : t = t' := by
  obtain ⟨u, hraw, hrelease⟩ := h
  obtain ⟨u', hraw', hrelease'⟩ := h'
  obtain rfl : u = u' := (outcome_inj.1 (hraw.symm.trans hraw')).2
  exact (outcome_inj.1 (hrelease.symm.trans hrelease')).2

namespace Layout.Site

variable {l : Layout} {d : List Name} {base : Store} (h : l.Site d base)
  (hfits : l.archivePath.bytes.length < Route.lengthLimit)

include h

theorem requireNoWorkDir_eq : Job.requireNoWorkDir l base = (.ok (), base) := by
  have hfree := Store.not_present_of_look (isName_work l.version) h.finds (length_work_le l.version) h.free
  rw [← workDir] at hfree
  exact Job.requireNoWorkDir_of_free hfree

theorem makeDir_workDir : Files.makeDir l.workDir.bytes base = (.ok (), l.entered d base) := by
  rw [workDir, Files.makeDir_of_finds (isName_work l.version) h.finds (length_work_le l.version)]
  have hnone : base.top.get? (d ++ [Bytes.ofString ("tmp-" ++ l.version.text)]) = none := look_eq_none.1 h.free
  rw [hnone]
  rfl

include hfits

/-- The output directories stand already. -/
theorem makeDirs_rawModulesDir : Files.makeDirs l.rawModulesDir.bytes base = (.ok (), base) := by
  have hfinds : base.Finds l.root rawModulesName d :=
    ⟨h.finds.reaches, h.finds.no_nul, Nat.lt_trans (Path.length_bytes_lt_div l.isName_archive) hfits⟩
  have hdir : base.top.look (d ++ [Bytes.ofString rawModulesName]) = some .dir := h.rawModules
  rw [rawModulesDir, Files.makeDirs_of_finds isName_rawModules hfinds (by decide)
    (fun target => h.plain.linkFree _ target), hdir]

theorem makeDirs_releaseDir : Files.makeDirs l.releaseDir.bytes base = (.ok (), base) := by
  have hfinds : base.Finds l.root releaseName d := by
    refine ⟨h.finds.reaches, h.finds.no_nul, ?_⟩
    have hversion := Path.length_bytes_lt_div (p := l.releaseDir) (isName_version l.version)
    have hdist := Path.length_bytes_lt_div (p := l.versionReleaseDir) isName_dist
    exact Nat.lt_trans hversion (Nat.lt_trans hdist (Nat.lt_of_le_of_lt l.length_dist_le hfits))
  have hdir : base.top.look (d ++ [Bytes.ofString releaseName]) = some .dir := h.release
  rw [releaseDir, Files.makeDirs_of_finds isName_release hfinds (by decide)
    (fun target => h.plain.linkFree _ target), hdir]

end Layout.Site

/-- Where the output directories stand already, making them does nothing. -/
theorem Layout.Site.makesOutputDirs {l : Layout} {d : List Name} {base : Store} (h : l.Site d base)
    (hfits : l.archivePath.bytes.length < Route.lengthLimit) : l.MakesOutputDirs base base :=
  ⟨base, h.makeDirs_rawModulesDir hfits, h.makeDirs_releaseDir hfits⟩

/-- Making the output directories adds directories. -/
theorem Layout.MakesOutputDirs.grows {l : Layout} {s t : Store} (h : l.MakesOutputDirs s t) (hs : s.top.Plain) :
    s.top.Grows t.top ∧ t.cwd = s.cwd := by
  obtain ⟨u, hraw, hrelease⟩ := h
  have hgrows := Files.makeDirs_growsIn hs l.rawModulesDir.bytes
  rw [hraw] at hgrows
  have hgrows' := Files.makeDirs_growsIn hgrows.plain l.releaseDir.bytes
  rw [hrelease] at hgrows'
  exact ⟨hgrows.grows.trans hgrows'.grows, hgrows'.cwd.trans hgrows.cwd⟩

/-- A working directory that is free once the output directories are made was free before. -/
theorem Layout.MakesOutputDirs.requireNoWorkDir_eq {l : Layout} {d : List Name} {s base : Store}
    (h : l.MakesOutputDirs s base) (hs : s.top.Plain) (hsite : l.Site d base) :
    Job.requireNoWorkDir l s = (.ok (), s) := by
  obtain ⟨hgrows, hcwd⟩ := h.grows hs
  refine Job.requireNoWorkDir_of_free (Bool.eq_false_iff.2 fun hpresent => ?_)
  rw [Store.present] at hpresent
  cases hnode : s.nodeAt true l.workDir.bytes with
  | error fault =>
    rw [hnode] at hpresent
    cases hpresent
  | ok node =>
    obtain ⟨-, -, hget⟩ := Store.finds_of_nodeAt (isName_work l.version) hs.linkFree hnode
    have hstands := hgrows.look_eq (look_of_get? hget)
    rw [← Store.spelled_congr hcwd, hsite.spelled, ← workAt, hsite.free] at hstands
    cases hstands

theorem Job.begin_ends {j : Job σ} {d : List Name} {s base : Store} (hmakes : j.layout.MakesOutputDirs s base)
    (h : j.layout.Site d base) : Run.Ends j.begin s (.ok ()) [] (· = j.layout.entered d base) := by
  obtain ⟨u, hraw, hrelease⟩ := hmakes
  have hmade : Run.Ends j.makeOutputDirs s (.ok ()) [] (· = base) := .ofFiles_bind hraw (.ofFiles hrelease rfl)
  refine hmade.bind_silent ?_
  rintro _ rfl
  exact .ofWork_bind h.requireNoWorkDir_eq (.ofFiles h.makeDir_workDir rfl)

/-- A release comes to its working directory once the output directories are made. -/
theorem Layout.Site.prepares {e : Executor σ} {r : Request} {root : Path} {label : Label} {d : List Name}
    {s base : Store} (h : Layout.Site ⟨root, r.version, label⟩ d base) (hs : s.top.Plain)
    (hmakes : Layout.MakesOutputDirs ⟨root, r.version, label⟩ s base) {config : Config}
    (hload : Config.load s root = .ok config) {u : Session σ} (hu : u.store = s) :
    ∃ t : Session σ, Job.prepare e r root label u =
      (.ok ⟨e, config, ⟨root, r.version, label⟩, r.sourceDir, r.blenderDir, r.quiet⟩, t) ∧
      t.store = Layout.entered ⟨root, r.version, label⟩ d base := by
  have hends : Run.Ends (Job.prepare e r root label) s
      (.ok ⟨e, config, ⟨root, r.version, label⟩, r.sourceDir, r.blenderDir, r.quiet⟩) []
      (· = Layout.entered ⟨root, r.version, label⟩ d base) := by
    refine .ofWork_bind (hmakes.requireNoWorkDir_eq hs h) ?_
    refine .bind_silent (.ofStore hload rfl) ?_
    rintro _ rfl
    refine .progress_bind _ _ ?_
    refine .bind_silent (Job.begin_ends (j := ⟨e, config, ⟨root, r.version, label⟩, r.sourceDir, r.blenderDir,
      r.quiet⟩) hmakes h) ?_
    rintro _ rfl
    exact .pure rfl
  obtain ⟨t, hrun, -, hstore⟩ := hends u hu
  exact ⟨t, hrun, hstore⟩

end StubRelease
