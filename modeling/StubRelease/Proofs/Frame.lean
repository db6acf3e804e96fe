/-
# StubRelease.Proofs.Frame -- what the stages of a run alter

Where a stage of a run alters the tree, whether it succeeds or stops half way. The places are those that the
paths of the run spell from the current directory, so nothing is asked of the root: a path that leads
nowhere alters nothing. Archiving leaves a file or nothing and takes no directory away (`LeavesArchive`), and
making the output directories adds directories only, on the way of the root's path or below it.
-/
import StubRelease.Proofs.Archiving
import StubRelease.Proofs.Publication
import StubRelease.Proofs.Staging
import StubRelease.Proofs.ToolTrace
import StubRelease.Proofs.Leftovers

namespace StubRelease

open Sequence Node

variable {σ α β : Type}

/-! ## Places of a run -/

namespace Layout

/-- The place of the directory of archives, when the root is the directory at `d`. -/
def rawModulesAt (d : List Name) : List Name := d ++ [Bytes.ofString rawModulesName]

def releaseAt (d : List Name) : List Name := d ++ [Bytes.ofString releaseName]

def workAt (l : Layout) (d : List Name) : List Name := d ++ [Bytes.ofString ("tmp-" ++ l.version.text)]

def archiveAt (l : Layout) (d : List Name) : List Name := rawModulesAt d ++ [Bytes.ofString l.archiveFileName]

def versionAt (l : Layout) (d : List Name) : List Name := releaseAt d ++ [Bytes.ofString l.version.text]

def distAt (l : Layout) (d : List Name) : List Name := l.versionAt d ++ [Bytes.ofString distName]

/-- What publishing adds to the release tree: the directory of the version, and the distributions. -/
def PublishedAt (l : Layout) (d : List Name) (p : List Name) : Prop := p = l.versionAt d ∨ l.distAt d <+: p

variable {l : Layout} {s : Store} {d p : List Name}

theorem spelled_workDir : s.spelled l.workDir = l.workAt (s.spelled l.root) :=
  Store.spelled_div (isName_work l.version)

theorem spelled_rawModulesDir : s.spelled l.rawModulesDir = rawModulesAt (s.spelled l.root) :=
  Store.spelled_div isName_rawModules

theorem spelled_releaseDir : s.spelled l.releaseDir = releaseAt (s.spelled l.root) :=
  Store.spelled_div isName_release

theorem spelled_versionReleaseDir : s.spelled l.versionReleaseDir = l.versionAt (s.spelled l.root) := by
  rw [versionReleaseDir, Store.spelled_div (isName_version l.version), spelled_releaseDir]
  rfl

/-- No run works in the directory of archives. -/
theorem spelled_workDir_ne : s.spelled l.workDir ≠ s.spelled l.rawModulesDir := by
  rw [spelled_workDir, spelled_rawModulesDir]
  exact fun heq => work_ne_rawModules _ (List.singleton_inj.1 (List.append_cancel_left heq))

theorem spelled_releaseDir_ne : s.spelled l.releaseDir ≠ s.spelled l.rawModulesDir := by
  rw [spelled_releaseDir, spelled_rawModulesDir]
  exact fun heq => rawModules_ne_release (List.singleton_inj.1 (List.append_cancel_left heq)).symm

/-! ### Which of them are apart -/

theorem not_workAt_of_rawModulesAt (hp : rawModulesAt d <+: p) : ¬ l.workAt d <+: p := fun hwork =>
  work_ne_rawModules _ (entry_isPrefix_inj hwork hp)

theorem not_workAt_of_releaseAt (hp : releaseAt d <+: p) : ¬ l.workAt d <+: p := fun hwork =>
  work_ne_release _ (entry_isPrefix_inj hwork hp)

theorem not_rawModulesAt_of_releaseAt (hp : releaseAt d <+: p) : ¬ rawModulesAt d <+: p := fun hraw =>
  rawModules_ne_release (entry_isPrefix_inj hraw hp)

theorem rawModulesAt_isPrefix_archiveAt : rawModulesAt d <+: l.archiveAt d := List.prefix_append _ _

theorem releaseAt_isPrefix_versionAt : releaseAt d <+: l.versionAt d := List.prefix_append _ _

theorem versionAt_isPrefix_distAt : l.versionAt d <+: l.distAt d := List.prefix_append _ _

theorem releaseAt_isPrefix_distAt : releaseAt d <+: l.distAt d :=
  releaseAt_isPrefix_versionAt.trans versionAt_isPrefix_distAt

theorem archiveAt_ne_of_releaseAt (hp : releaseAt d <+: p) : p ≠ l.archiveAt d := by
  rintro rfl
  exact not_rawModulesAt_of_releaseAt hp rawModulesAt_isPrefix_archiveAt

theorem not_workAt_isPrefix_archiveAt : ¬ l.workAt d <+: l.archiveAt d :=
  not_workAt_of_rawModulesAt rawModulesAt_isPrefix_archiveAt

end Layout

/-! ## Tools -/

/-- A call alters a region of the directory it runs in and nothing else; where its path leads nowhere it
alters nothing. -/
def Executor.WritesIn (e : Executor σ) (region : List Name → List Name → Prop) : Prop :=
  ∀ c tools (s : Store), s.top.Plain →
    s.AltersIn (fun p => ∃ w, s.placeOf true c.cwd.bytes = .ok w ∧ region w p) (e.run c tools s).store

/-- Calls alter nothing but what is strictly inside the directory they run in. -/
abbrev Executor.WorksInside (e : Executor σ) : Prop := e.WritesIn Inside

theorem Executor.worksInside_putting {tree : Node} (h : tree.Plain) : (Executor.putting tree).WorksInside := by
  intro c tools s hs
  simp only [Executor.putting]
  cases hplace : s.placeOf true c.cwd.bytes with
  | error e => exact .refl hs
  | ok w =>
    have hout := ChangesIn.put hs w Layout.isName_generated h
    have hdist := ChangesIn.put hout.plain w Layout.isName_dist h
    have hinside := (hout.mono fun _ => inside_of_entry).trans (hdist.mono fun _ => inside_of_entry)
    exact ⟨rfl, hinside.mono fun p hp => ⟨w, rfl, hp⟩⟩

namespace Run

variable {P Q : List Name → Prop} {s : Session σ}

@[simp] theorem progress_store (quiet : Bool) (text : String) (s : Session σ) :
    (progress quiet text s).2.store = s.store := by
  cases quiet <;> rfl

/-- Printing always succeeds. -/
theorem progress_cases (quiet : Bool) (text : String) (s : Session σ) : ∃ t, progress quiet text s = (.ok (), t) ∧
    t.store = s.store ∧ t.history = s.history := by
  cases quiet
  · exact ⟨_, rfl, rfl, rfl⟩
  · exact ⟨_, rfl, rfl, rfl⟩

theorem ofWork_store (step : Work α) (s : Session σ) : (ofWork step s).2.store = (step s.store).2 := by
  rw [ofWork_eq]

theorem ofFiles_store (op : Files α) (s : Session σ) : (ofFiles op s).2.store = (op s.store).2 := by
  rw [ofFiles, ofWork_store, Sequence.ofFiles_store]

theorem callChecked_store (e : Executor σ) (c : Call) (s : Session σ) :
    (callChecked e c s).2.store = (e.run c s.tools s.store).store := by
  rw [Traced.callChecked_state]
  rfl

/-- A call alters its region of the entry that its directory's path spells. -/
theorem callChecked_alters {e : Executor σ} {region : List Name → List Name → Prop} (he : e.WritesIn region)
    (hs : s.store.top.Plain) {c : Call} {w : Path} {text : String} (hname : IsName (Bytes.ofString text))
    (hcwd : c.cwd = w / text) :
    s.store.AltersIn (region (s.store.spelled w ++ [Bytes.ofString text])) (callChecked e c s).2.store := by
  rw [callChecked_store]
  refine (he c s.tools s.store hs).mono fun p hp => ?_
  obtain ⟨found, hplace, hregion⟩ := hp
  rw [hcwd] at hplace
  obtain ⟨-, -, rfl⟩ := Store.finds_of_placeOf hname hs.linkFree hplace
  exact hregion

end Run

/-! ## Archiving -/

/-- A file that was just put into a directory is moved to another directory, where no directory gives way to
it, or nothing happens. -/
theorem Files.rename_put_file {s : Store} {q p : Path} {text : String} (hs : s.top.Plain)
    (hname : IsName (Bytes.ofString text)) (hdir : s.top.look (s.spelled q) = some .dir)
    (hne : s.spelled q ≠ s.spelled p) (content : Content) (executable : Bool) :
    let u := s.put (s.spelled q) (Bytes.ofString text) (.file content executable)
    (∃ fault, Files.rename (q / text).bytes (p / text).bytes u = (.error fault, u)) ∨
      s.top.look (s.spelled p) = some .dir ∧ s.top.look (s.spelled p ++ [Bytes.ofString text]) ≠ some .dir ∧
        (p / text).bytes.length < Route.lengthLimit ∧
        Files.rename (q / text).bytes (p / text).bytes u =
          (.ok (), (s.drop (s.spelled q) (Bytes.ofString text)).put (s.spelled p) (Bytes.ofString text)
            (.file content executable)) := by
  intro u
  have hu : u.top.Plain := hs.put _ hname (.file content executable)
  have hspelled (r : Path) : u.spelled r = s.spelled r := Store.spelled_congr rfl r
  obtain ⟨fault, hfault⟩ | ⟨d, hdest, -, -, ⟨e, hsource, heq⟩, -⟩ | ⟨e, d, node, h⟩ :=
    Files.rename_finds (s := u) (q := q) (p := p) hname hname
  · exact .inl ⟨fault, hfault⟩
  · rw [hsource.reaches.eq_spelled hu.linkFree, hdest.reaches.eq_spelled hu.linkFree, hspelled, hspelled] at heq
    exact absurd (List.append_inj_left' heq rfl) hne
  · obtain rfl : e = s.spelled q := by rw [h.source.reaches.eq_spelled hu.linkFree, hspelled]
    obtain rfl : d = s.spelled p := by rw [h.dest.reaches.eq_spelled hu.linkFree, hspelled]
    have hfile : u.top.get? (s.spelled q ++ [Bytes.ofString text]) = some (.file content executable) :=
      get?_put_self hdir _ _
    obtain rfl := Option.some.inj (hfile.symm.trans h.found)
    have happart : ¬ s.spelled q ++ [Bytes.ofString text] <+: s.spelled p ++ [Bytes.ofString text] := by
      intro hat
      rcases List.prefix_concat_iff.1 hat with heq | hdown
      · exact h.ne heq
      · exact h.down hdown
    refine .inr ⟨?_, ?_, h.dest.fits, ?_⟩
    · rw [← h.dest.reaches.dir]
      exact (look_put_elsewhere s.top _ h.down).symm
    · rw [← look_put_elsewhere s.top (.file content executable) happart]
      exact (Files.mayReplace_eq_ok_of_not_dir rfl).1 h.mayReplace
    · rw [Files.rename_of_carries hname hname h, Store.drop_put]

namespace Job

variable {j : Job σ} {s : Session σ} {w : Path}

/-- What archiving leaves of itself: nothing, or a file beside the generated directory, or a file in the
archive's place. No directory gives way to it. -/
inductive LeavesArchive (l : Layout) (w : List Name) (s t : Store) : Except Failure Unit → Prop where
  | nothing (failure : Failure) (same : t = s) : LeavesArchive l w s t (.error failure)
  | draft (failure : Failure) (content : Content) (executable : Bool) (dir : s.top.look w = some .dir)
    (beside : s.top.look (w ++ [Bytes.ofString l.archiveFileName]) ≠ some .dir)
    (store : t = s.put w (Bytes.ofString l.archiveFileName) (.file content executable)) :
    LeavesArchive l w s t (.error failure)
  | archive (content : Content) (executable : Bool) (dir : s.top.look w = some .dir)
    (beside : s.top.look (w ++ [Bytes.ofString l.archiveFileName]) ≠ some .dir)
    (short : (Bytes.ofString l.archiveFileName).length ≤ Route.nameLimit)
    (fits : l.archivePath.bytes.length < Route.lengthLimit)
    (rawModules : s.top.look (Layout.rawModulesAt (s.spelled l.root)) = some .dir)
    (replaced : s.top.look (l.archiveAt (s.spelled l.root)) ≠ some .dir)
    (store : t = (s.drop w (Bytes.ofString l.archiveFileName)).put (Layout.rawModulesAt (s.spelled l.root))
      (Bytes.ofString l.archiveFileName) (.file content executable)) :
    LeavesArchive l w s t (.ok ())

theorem archiveGenerated_leaves (hs : s.store.top.Plain)
    (hne : s.store.spelled w ≠ s.store.spelled j.layout.rawModulesDir) :
    LeavesArchive j.layout (s.store.spelled w) s.store (j.archiveGenerated w s).2.store
      (j.archiveGenerated w s).1 := by
  have hname := j.layout.isName_archive
  have hdiffer : Bytes.ofString Layout.generatedName ≠ Bytes.ofString j.layout.archiveFileName :=
    (j.layout.archive_ne (by decide)).symm
  obtain ⟨failure, hzip⟩ | ⟨hfinds, hshort, hnot, content, executable, ⟨failure, hzip⟩ | ⟨files, hzip⟩⟩ :=
    Archive.zipDirectory_writes (w := w) hs.linkFree Layout.isName_generated hname hdiffer
      j.layout.archiveRootName
  · rw [archiveGenerated, Staging.generatedDir, Layout.draftArchivePath, ofWork_bind_of_error _ hzip]
    exact .nothing failure rfl
  · rw [archiveGenerated, Staging.generatedDir, Layout.draftArchivePath, ofWork_bind_of_error _ hzip]
    exact .draft failure content executable hfinds.reaches.dir hnot rfl
  · rw [archiveGenerated, Staging.generatedDir, Layout.draftArchivePath, ofWork_bind_of_ok _ hzip, Run.ofFiles,
      ofWork_eq, ofFiles_eq]
    obtain ⟨fault, hfault⟩ | ⟨hraw, hreplaced, hfits, hmoved⟩ :=
      Files.rename_put_file hs hname hfinds.reaches.dir hne content executable
    · rw [Layout.archivePath, hfault]
      exact .draft _ content executable hfinds.reaches.dir hnot rfl
    · rw [Layout.archivePath, hmoved]
      rw [Layout.spelled_rawModulesDir] at hraw hreplaced
      refine .archive content executable hfinds.reaches.dir hnot hshort hfits hraw hreplaced ?_
      rw [Layout.spelled_rawModulesDir]

/-- Archiving alters the place beside the generated directory and the archive's place. -/
theorem LeavesArchive.alters {l : Layout} {w : List Name} {s t : Store} {result : Except Failure Unit}
    (hs : s.top.Plain) (h : LeavesArchive l w s t result) :
    s.AltersIn (fun p => p = w ++ [Bytes.ofString l.archiveFileName] ∨ p = l.archiveAt (s.spelled l.root)) t := by
  have hname := l.isName_archive
  cases h with
  | nothing failure same =>
    rw [same]
    exact .refl hs
  | draft failure content executable dir beside store =>
    rw [store]
    exact ⟨rfl, (ChangesIn.put_here hs hname (.file content executable) dir beside fun _ _ => rfl).mono fun _ => .inl⟩
  | archive content executable dir beside short fits rawModules replaced store =>
    rw [store]
    have hdrop := ChangesIn.drop_here hs fun first rest => look_below_of_not_dir beside first rest
    have hraw : (s.drop w (Bytes.ofString l.archiveFileName)).top.look (Layout.rawModulesAt (s.spelled l.root)) =
        some .dir := KeepsDirs.drop beside _ rawModules
    have hplace : (s.drop w (Bytes.ofString l.archiveFileName)).top.look (l.archiveAt (s.spelled l.root)) ≠
        some .dir := by
      by_cases hat : l.archiveAt (s.spelled l.root) = w ++ [Bytes.ofString l.archiveFileName]
      · rw [hat, Store.top_drop, look_drop]
        simp
      · rwa [Store.top_drop, hdrop.look _ hat]
    have hput := ChangesIn.put_here hdrop.plain hname (.file content executable) hraw hplace fun _ _ => rfl
    exact ⟨rfl, (hdrop.mono fun _ => .inl).trans (hput.mono fun _ => .inr)⟩

end Job

/-! ## The stages that both modes share -/

/-- What is known of two stores between which a stage of a build in `w` has run: a preorder `R` on the stores
that satisfy `I`, in which every stage runs upwards. -/
structure Job.Stagewise (j : Job σ) (w : Path) (I : Store → Prop) (R : Store → Store → Prop) : Prop where
  refl : ∀ {s}, I s → R s s
  trans : ∀ {s t u}, R s t → R t u → R s u
  keeps : ∀ {s t}, I s → R s t → I t
  call : ∀ {s : Session σ} {c : Call}, I s.store → c.cwd = w → R s.store (Run.callChecked j.executor c s).2.store
  archive : ∀ {s : Session σ}, I s.store → R s.store (j.archiveGenerated w s).2.store
  promote : ∀ {s}, I s → R s (Staging.promoteGenerated j.executor.order w s).2
  copy : ∀ {s}, I s → R s (Staging.copyMetadata w j.config s).2

namespace Job.Stagewise

variable {j : Job σ} {w : Path} {I : Store → Prop} {R : Store → Store → Prop} {s : Session σ}
  (h : j.Stagewise w I R)

include h

theorem bind (hs : I s.store) {x : Run σ α} {f : α → Run σ β} (hx : R s.store (x s).2.store)
    (hf : ∀ a t, x s = (.ok a, t) → I t.store → R t.store (f a t).2.store) : R s.store ((x >>= f) s).2.store :=
  relates_bind (R := fun u v : Session σ => R u.store v.store) h.trans hx fun a t hrun hstep =>
    hf a t hrun (h.keeps hs hstep)

theorem progress (hs : I s.store) (text : String) : R s.store (j.progress text s).2.store := by
  rw [Job.progress, Run.progress_store]
  exact h.refl hs

theorem convertReadme (hs : I s.store) :
    R s.store (Staging.convertReadme j.executor w j.config s).2.store := by
  refine h.bind hs ?_ fun _ t _ ht => h.call ht rfl
  rw [Run.ofWork_store, require_store]
  exact h.refl hs

theorem runSetup (hs : I s.store) (commands : List SetupCommand) :
    R s.store (j.runSetup w commands s).2.store := by
  induction commands generalizing s with
  | nil => exact h.refl hs
  | cons command rest ih =>
    refine h.bind hs (h.progress hs _) fun _ t _ ht => ?_
    exact h.bind ht (h.call ht rfl) fun _ u _ hu => ih hu

theorem generateAndStage (hs : I s.store) (mode : Mode) :
    R s.store (j.generateAndStage mode w s).2.store := by
  refine h.bind hs (h.progress hs _) fun _ s₁ _ h₁ => ?_
  refine h.bind h₁ (h.call h₁ rfl) fun _ s₂ _ h₂ => ?_
  refine h.bind h₂ (h.progress h₂ _) fun _ s₃ _ h₃ => ?_
  refine h.bind h₃ (h.archive h₃) fun _ s₄ _ h₄ => ?_
  refine h.bind h₄ ?_ fun _ s₅ _ h₅ => ?_
  · rw [Run.ofWork_store]
    exact h.promote h₄
  refine h.bind h₅ ?_ fun _ s₆ _ h₆ => ?_
  · rw [Run.ofWork_store]
    exact h.copy h₅
  refine h.bind h₆ (h.progress h₆ _) fun _ s₇ _ h₇ => ?_
  exact h.bind h₇ (h.convertReadme h₇) fun _ s₈ _ h₈ => h.refl h₈

end Job.Stagewise

/-! ## Output directories -/

/-- Where making the output directories of a run may make directories: where they stand themselves, and on
the way of the root's path. -/
def Layout.OutputPlace (s : Store) (root : Path) (p : List Name) : Prop :=
  OnWay (s.origin (Route.ofBytes root.bytes)) (Route.hopsOf root.bytes) p ∨
    p = rawModulesAt (s.spelled root) ∨ p = releaseAt (s.spelled root)

/-- The output directories are made one after the other. -/
def Layout.MakesOutputDirs (l : Layout) (s t : Store) : Prop :=
  ∃ u, Files.makeDirs l.rawModulesDir.bytes s = (.ok (), u) ∧ Files.makeDirs l.releaseDir.bytes u = (.ok (), t)

/-- Directories are made on the way of a path of an entry and at the entry. -/
theorem Files.makeDirs_div_growsIn {s : Store} {p : Path} {text : String} (hs : s.top.Plain)
    (hname : IsName (Bytes.ofString text)) :
    GrowsIn (fun place => OnWay (s.origin (Route.ofBytes p.bytes)) (Route.hopsOf p.bytes) place ∨
      place = s.spelled p ++ [Bytes.ofString text]) s (makeDirs (p / text).bytes s).2 := by
  refine (makeDirs_growsIn hs (p / text).bytes).mono ?_
  rintro place ⟨pre, hpre, rfl⟩
  have horigin : s.origin (Route.ofBytes (p / text).bytes) = s.origin (Route.ofBytes p.bytes) := by
    rw [Route.ofBytes_div hname]
    rfl
  rw [Path.hopsOf_div hname, List.prefix_concat_iff] at hpre
  rw [horigin]
  rcases hpre with rfl | hpre
  · refine .inr ?_
    rw [List.foldl_append]
    rfl
  · exact .inl ⟨pre, hpre, rfl⟩

namespace Job

variable {j : Job σ} {s t : Session σ} {d : List Name}

theorem makeOutputDirs_growsIn (hs : s.store.top.Plain) :
    Files.GrowsIn (Layout.OutputPlace s.store j.layout.root) s.store (j.makeOutputDirs s).2.store := by
  have hraw := Files.makeDirs_div_growsIn (p := j.layout.root) hs Layout.isName_rawModules
  refine relates_bind (R := fun u v : Session σ =>
    Files.GrowsIn (Layout.OutputPlace s.store j.layout.root) u.store v.store) .trans ?_ fun _ t hmade ht => ?_
  · rw [Run.ofFiles_store]
    exact hraw.mono fun p hp => hp.imp_right .inl
  · rw [Run.ofFiles_store]
    have hrelease := Files.makeDirs_div_growsIn (p := j.layout.root) ht.plain Layout.isName_release
    rw [Store.spelled_congr ht.cwd] at hrelease
    have horigin : t.store.origin (Route.ofBytes j.layout.root.bytes) =
        s.store.origin (Route.ofBytes j.layout.root.bytes) := by
      rw [Store.origin, Store.origin, ht.cwd]
    rw [horigin] at hrelease
    exact hrelease.mono fun p hp => hp.imp_right .inr

theorem makeOutputDirs_makes {a : Unit} (h : j.makeOutputDirs s = (.ok a, t)) :
    j.layout.MakesOutputDirs s.store t.store := by
  obtain ⟨_, u, hraw, hrelease⟩ := bind_eq_ok.1 h
  exact ⟨u.store, ofFiles_eq_ok.1 (ofWork_eq_ok hraw).1, ofFiles_eq_ok.1 (ofWork_eq_ok hrelease).1⟩

end Job

/-- Once they are made the output directories stand. -/
theorem Layout.MakesOutputDirs.stand {l : Layout} {s t : Store} (h : l.MakesOutputDirs s t) (hs : s.top.Plain) :
    t.top.look (rawModulesAt (t.spelled l.root)) = some .dir ∧
      t.top.look (releaseAt (t.spelled l.root)) = some .dir := by
  obtain ⟨u, hraw, hrelease⟩ := h
  have hgrows := Files.makeDirs_growsIn hs l.rawModulesDir.bytes
  rw [hraw] at hgrows
  have hgrows' := Files.makeDirs_growsIn hgrows.plain l.releaseDir.bytes
  rw [hrelease] at hgrows'
  obtain ⟨-, -, d, hreaches⟩ := Files.reaches_of_makeDirs isName_rawModules hraw
  obtain ⟨-, -, d', hreaches'⟩ := Files.reaches_of_makeDirs isName_release hrelease
  obtain rfl := hreaches.eq_spelled hgrows.plain.linkFree
  obtain rfl := hreaches'.eq_spelled hgrows'.plain.linkFree
  refine ⟨?_, ?_⟩
  · have hstands := hgrows'.grows.keepsDirs _ hreaches.dir
    rwa [Store.spelled_div isName_rawModules, ← Store.spelled_congr hgrows'.cwd] at hstands
  · have hstands := hreaches'.dir
    rwa [Store.spelled_div isName_release] at hstands

end StubRelease
