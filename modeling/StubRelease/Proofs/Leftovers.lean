/-
# StubRelease.Proofs.Leftovers -- which files get into an archive

A run archives the directory `out` of its working directory right after its generator has been called.
Main statement: in every tree, whatever earlier runs have left in it, the archive of a release holds the
files that this run's own generator wrote and no others; the archive of a development install, which
works in the directory that all of them share, holds in addition what stood in `out` when its generator
was called and was not overwritten (`archive_holds_written_and_leftovers`). A development install that
fails after its generator was called leaves its modules there for the next one (`leftover_reaches_archive`).
-/
import StubRelease.Proofs.Contents
import StubRelease.Proofs.Publication
import StubRelease.Proofs.Tree.Growth

namespace StubRelease

open Sequence Node

variable {σ : Type}

/-! ## Writing files below a place -/

namespace Node

/-- The second tree is the first one after files were created or overwritten below a place: `written` is
what they hold, by their names seen from the place. Directories may have been made for them. -/
structure Writes (place : List Name) (written : List Name → Option Content) (n m : Node) : Prop where
  wellFormed : m.WellFormed
  onto : ∀ rest content, written rest = some content →
    n.look (place ++ rest) = none ∨ ∃ old executable, n.look (place ++ rest) = some (.file old executable)
  file : ∀ rest content, written rest = some content →
    ∃ executable, m.look (place ++ rest) = some (.file content executable)
  other : ∀ p, (∀ rest, p = place ++ rest → written rest = none) →
    m.look p = n.look p ∨ place <+: p ∧ n.look p = none ∧ m.look p = some .dir

namespace Writes

variable {place : List Name} {written : List Name → Option Content} {n m k : Node}

/-- What is seen where nothing was written. -/
theorem other_of_unwritten (h : Writes place written n m) {rest : List Name}
    (hnone : written rest = none) : m.look (place ++ rest) = n.look (place ++ rest) ∨
      n.look (place ++ rest) = none ∧ m.look (place ++ rest) = some .dir := by
  refine (h.other (place ++ rest) fun rest' heq => ?_).imp_right And.right
  rwa [← List.append_cancel_left heq]

/-- What is seen at a place that is not below the one that is written in. -/
theorem elsewhere (h : Writes place written n m) {p : List Name} (hp : ¬ place <+: p) :
    m.look p = n.look p := by
  refine (h.other p fun rest heq => ?_).resolve_right fun hbelow => hp hbelow.1
  exact absurd (heq ▸ List.prefix_append place rest) hp

/-- Neither directories nor links go. -/
theorem keepsWays (h : Writes place written n m) : n.KeepsWays m := by
  have hstays (p : List Name) (seen : Sight) (hseen : ∀ c x, seen ≠ .file c x)
      (hp : n.look p = some seen) : m.look p = some seen := by
    have hunwritten : ∀ rest, p = place ++ rest → written rest = none := by
      rintro rest rfl
      cases hwritten : written rest with
      | none => rfl
      | some content =>
        obtain hnone | ⟨old, executable, hfile⟩ := h.onto rest content hwritten
        · rw [hp] at hnone
          cases hnone
        · rw [hp] at hfile
          exact absurd (Option.some.inj hfile) (hseen old executable)
    obtain heq | ⟨-, hnone, -⟩ := h.other p hunwritten
    · rw [heq, hp]
    · rw [hp] at hnone
      cases hnone
  exact ⟨fun p => hstays p .dir (by simp), fun p target => hstays p (.link target) (by simp)⟩

/-- A directory that is made where nothing stands is no file. -/
theorem mkdir (hn : n.WellFormed) {dir : List Name} {name : Name} (hname : IsName name)
    (hdir : n.look dir = some .dir) (hfree : n.look (dir ++ [name]) = none)
    (hplace : place <+: dir ++ [name]) : Writes place (fun _ => none) n (n.put dir name emptyDir) where
  wellFormed := hn.put dir hname wellFormed_emptyDir
  onto := by
    intro rest content h
    cases h
  file := by
    intro rest content h
    cases h
  other := by
    intro p _
    by_cases hat : dir ++ [name] <+: p
    · obtain ⟨rest, rfl⟩ := hat
      cases rest with
      | nil =>
        rw [List.append_nil]
        refine .inr ⟨hplace, hfree, ?_⟩
        rw [look_put hdir, look_nil]
        rfl
      | cons first rest =>
        have hnone : n.look (dir ++ [name] ++ first :: rest) = none :=
          look_below_of_not_dir (by simp [hfree]) first rest
        refine .inl ?_
        rw [hnone, List.append_assoc, List.singleton_append, look_put hdir]
        rfl
    · exact .inl (look_put_elsewhere n _ hat)

/-- One file is written in a directory that is there. -/
theorem put (hn : n.WellFormed) {name : Name} (hname : IsName name) (hdir : n.look place = some .dir)
    (hover : n.look (place ++ [name]) = none ∨
      ∃ old executable, n.look (place ++ [name]) = some (.file old executable))
    (content : Content) (executable : Bool) :
    Writes place (fun rest => if rest = [name] then some content else none) n
      (n.put place name (.file content executable)) where
  wellFormed := hn.put place hname (.file content executable)
  onto := by
    intro rest content' h
    split at h
    · rename_i hrest
      rwa [hrest]
    · cases h
  file := by
    intro rest content' h
    split at h
    · rename_i hrest
      cases h
      refine ⟨executable, ?_⟩
      rw [hrest, look_put hdir, look_nil]
      rfl
    · cases h
  other := by
    intro p hp
    refine .inl ?_
    by_cases hat : place ++ [name] <+: p
    · obtain ⟨rest, rfl⟩ := hat
      have hnot : n.look (place ++ [name]) ≠ some .dir := by
        rcases hover with h | ⟨_, _, h⟩ <;> simp [h]
      cases rest with
      | nil => simpa using hp [name] (by simp)
      | cons first rest =>
        rw [look_below_of_not_dir hnot, List.append_assoc, List.singleton_append, look_put hdir]
        rfl
    · exact look_put_elsewhere n _ hat

/-- Of what was written twice the second stays. -/
theorem trans {later : List Name → Option Content} (h : Writes place written n m)
    (h' : Writes place later m k) : Writes place (fun rest => (later rest).or (written rest)) n k where
  wellFormed := h'.wellFormed
  onto := by
    intro rest content hwritten
    cases hfirst : written rest with
    | some old => exact h.onto rest old hfirst
    | none =>
      rw [hfirst, Option.or_none] at hwritten
      obtain heq | ⟨hnone, hdir⟩ := h.other_of_unwritten hfirst
      · rw [← heq]
        exact h'.onto rest content hwritten
      · exact .inl hnone
  file := by
    intro rest content hwritten
    cases hlater : later rest with
    | some new =>
      rw [hlater, Option.some_or] at hwritten
      cases hwritten
      exact h'.file rest content hlater
    | none =>
      rw [hlater, Option.none_or] at hwritten
      obtain ⟨executable, hfile⟩ := h.file rest content hwritten
      refine ⟨executable, ?_⟩
      obtain heq | ⟨hnone, -⟩ := h'.other_of_unwritten hlater
      · rw [heq, hfile]
      · rw [hfile] at hnone
        cases hnone
  other := by
    intro p hp
    have hfirst : ∀ rest, p = place ++ rest → written rest = none := fun rest heq =>
      (Option.or_eq_none_iff.1 (hp rest heq)).2
    have hlater : ∀ rest, p = place ++ rest → later rest = none := fun rest heq =>
      (Option.or_eq_none_iff.1 (hp rest heq)).1
    obtain heq | ⟨hbelow, hnone, hdir⟩ := h.other p hfirst
    · obtain heq' | ⟨hbelow, hnone, hdir⟩ := h'.other p hlater
      · exact .inl (heq'.trans heq)
      · exact .inr ⟨hbelow, heq ▸ hnone, hdir⟩
    · exact .inr ⟨hbelow, hnone, h'.keepsWays.dirs p hdir⟩

end Writes

end Node

/-! ## A run up to its archive -/

/-- The directory a run works in. -/
def Request.workDir (r : Request) (root : Path) : Path :=
  match r.mode with
  | .release => root / ("tmp-" ++ r.version.text)
  | .develop => root / Layout.releaseName

/-- A run up to the call of its generator: gives what it works with, and where. -/
def Job.enter (e : Executor σ) (r : Request) (root : Path) (label : Label) : Run σ (Job σ) := do
  let layout : Layout := ⟨root, r.version, label⟩
  Run.ofWork (requireNoWorkDir layout)
  let config ← Run.ofStore (Config.load · root)
  let j : Job σ := ⟨e, config, layout, r.sourceDir, r.blenderDir, r.quiet⟩
  j.progress (Progress.start r.mode r.version)
  j.makeOutputDirs
  match r.mode with
  | .release => do
    Run.ofWork (requireNoWorkDir layout)
    Run.ofFiles (Files.makeDir layout.workDir.bytes)
    j.progress Progress.generating
    pure j
  | .develop => do
    j.progress Progress.generating
    pure j

/-- A run from the archive in its place to its end. -/
def Job.leave (j : Job σ) (mode : Mode) (w : Path) : Run σ Outcome := do
  let _ ← Run.ofWork (Staging.promoteGenerated j.executor.order w)
  Run.ofWork (Staging.copyMetadata w j.config)
  j.progress Progress.converting
  Staging.convertReadme j.executor w j.config
  match mode with
  | .release => do
    j.runSetup w SetupCommand.forRelease
    let dist ← Run.ofWork (Staging.publishDist w j.layout.versionReleaseDir)
    Run.ofFiles (Files.removeTree w.bytes)
    j.progress (Progress.released j.layout.version dist)
    pure ⟨j.layout.archivePath, some dist⟩
  | .develop => do
    j.runSetup w [.develop]
    j.progress (Progress.installed j.layout.version w)
    pure ⟨j.layout.archivePath, none⟩

/-- The call of a run's generator. -/
def Job.generatorCall (j : Job σ) (r : Request) (root : Path) : Call :=
  .generator j.config r.mode r.version r.sourceDir r.blenderDir (r.workDir root)

/-- A run generates and archives modules between its beginning and its end. -/
theorem package_eq (e : Executor σ) (r : Request) (root : Path) (label : Label) :
    package e r root label = (do
      let j ← Job.enter e r root label
      Run.callChecked e (j.generatorCall r root)
      j.progress (Progress.archiving j.layout.archiveFileName)
      j.archiveGenerated (r.workDir root)
      j.leave r.mode (r.workDir root)) := by
  obtain ⟨mode, version, sourceDir, blenderDir, quiet⟩ := r
  cases mode with
  | release =>
    simp only [package, Job.run, Job.release, Job.releaseIn, Job.generateAndStage, Job.enter, Job.leave,
      bind_assoc, pure_bind]
    rfl
  | develop =>
    simp only [package, Job.run, Job.develop, Job.generateAndStage, Job.enter, Job.leave,
      bind_assoc, pure_bind]
    rfl

/-- A run up to its archive, which is moved to its place: gives what the run works with. -/
def Job.upToArchive (e : Executor σ) (r : Request) (root : Path) (label : Label) : Run σ (Job σ) := do
  let j ← Job.enter e r root label
  Run.callChecked e (j.generatorCall r root)
  j.progress (Progress.archiving j.layout.archiveFileName)
  j.archiveGenerated (r.workDir root)
  pure j

/-- A run that writes its archive: it stands at `before` when its generator is called, at `generated` when
that call has returned, and at `archived` when the archive has been moved to its place; from there it goes on to its
end. -/
def Archives (e : Executor σ) (r : Request) (root : Path) (label : Label)
    (s before generated archived : Session σ) : Prop :=
  ∃ j, Job.enter e r root label s = (.ok j, before) ∧
    Run.callChecked e (j.generatorCall r root) before = (.ok (), generated) ∧
    (do
      j.progress (Progress.archiving j.layout.archiveFileName)
      j.archiveGenerated (r.workDir root)) generated = (.ok (), archived) ∧
    package e r root label s = j.leave r.mode (r.workDir root) archived

theorem package_eq_upToArchive (e : Executor σ) (r : Request) (root : Path) (label : Label) :
    package e r root label = (do
      let j ← Job.upToArchive e r root label
      j.leave r.mode (r.workDir root)) := by
  rw [package_eq]
  simp only [Job.upToArchive, bind_assoc, pure_bind]

theorem Archives.of_upToArchive {e : Executor σ} {r : Request} {root : Path} {label : Label}
    {s archived : Session σ} {j : Job σ} (h : Job.upToArchive e r root label s = (.ok j, archived)) :
    ∃ before generated, Archives e r root label s before generated archived := by
  have hleaves := package_eq_upToArchive e r root label
  have hpackage : package e r root label s = j.leave r.mode (r.workDir root) archived := by
    rw [hleaves, bind_of_ok _ h]
  obtain ⟨_, before, henter, h⟩ := bind_eq_ok.1 h
  obtain ⟨_, generated, hcall, h⟩ := bind_eq_ok.1 h
  obtain ⟨_, said, hsay, h⟩ := bind_eq_ok.1 h
  obtain ⟨_, moved, harchive, h⟩ := bind_eq_ok.1 h
  obtain ⟨hj, rfl⟩ := outcome_inj.1 h
  obtain rfl := Except.ok.inj hj
  exact ⟨before, generated, _, henter, hcall, (bind_of_ok _ hsay).trans harchive, hpackage⟩

/-- A run writes its archive and goes on from there, or it fails before. -/
theorem package_archives (e : Executor σ) (r : Request) (root : Path) (label : Label) (s : Session σ) :
    (∃ failure t, Job.upToArchive e r root label s = (.error failure, t) ∧
        package e r root label s = (.error failure, t)) ∨
      ∃ before generated archived, Archives e r root label s before generated archived := by
  cases h : Job.upToArchive e r root label s with
  | mk result archived =>
    cases result with
    | error failure =>
      refine .inl ⟨failure, archived, rfl, ?_⟩
      rw [package_eq_upToArchive, bind_of_error _ h]
    | ok j =>
      obtain ⟨before, generated, harchives⟩ := Archives.of_upToArchive h
      exact .inr ⟨before, generated, archived, harchives⟩

/-- Where a run stands when it calls its generator: its working directory is there, and a release finds
nothing in it. -/
structure Entered (r : Request) (root : Path) (s : Store) (d : List Name) : Prop where
  reaches : s.Reaches (r.workDir root) d
  placeOf : s.placeOf true (r.workDir root).bytes = .ok d
  empty : r.mode = .release → ∀ name rest, s.top.look (d ++ name :: rest) = none

theorem entered_of_makeDir {r : Request} (hmode : r.mode = .release) {root : Path} {s t : Store}
    (h : Files.makeDir (root / ("tmp-" ++ r.version.text)).bytes s = (.ok (), t)) :
    ∃ d, Entered r root t d := by
  have hname := Layout.isName_work r.version
  have hwhere : r.workDir root = root / ("tmp-" ++ r.version.text) := by
    rw [Request.workDir, hmode]
  obtain ⟨d, hfinds, hshort, hnone, rfl⟩ := Files.makeDir_entry hname h
  have hbelow (rest : List Name) :
      (s.put d (Bytes.ofString ("tmp-" ++ r.version.text)) .emptyDir).top.look
        (d ++ Bytes.ofString ("tmp-" ++ r.version.text) :: rest) = emptyDir.look rest := by
    rw [Store.top_put, look_put hfinds.reaches.dir]
  have hreaches := Store.reaches_div hname (hfinds.reaches.keeps
    (t := s.put d (Bytes.ofString ("tmp-" ++ r.version.text)) .emptyDir) (.put_free hnone _) rfl)
    hshort (hbelow [])
  refine ⟨d ++ [Bytes.ofString ("tmp-" ++ r.version.text)], ?_, ?_, fun _ name rest => ?_⟩
  · rwa [hwhere]
  · rw [hwhere]
    exact Store.placeOf_div hname hfinds.no_nul hfinds.fits hreaches
  · rw [List.append_assoc, List.singleton_append, hbelow]
    rfl

theorem entered_of_makeDirs {r : Request} (hmode : r.mode = .develop) {root : Path} {s t : Store}
    (h : Files.makeDirs (root / Layout.releaseName).bytes s = (.ok (), t)) :
    ∃ d, Entered r root t d := by
  have hwhere : r.workDir root = root / Layout.releaseName := by
    rw [Request.workDir, hmode]
  obtain ⟨hnul, hfits, d, hreaches⟩ := Files.reaches_of_makeDirs Layout.isName_release h
  refine ⟨d, ?_, ?_, fun hrelease => ?_⟩
  · rwa [hwhere]
  · rw [hwhere]
    exact Store.placeOf_div Layout.isName_release hnul hfits hreaches
  · rw [hmode] at hrelease
    cases hrelease

theorem Job.enter_eq_ok {e : Executor σ} {r : Request} {root : Path} {label : Label} {s before : Session σ}
    {j : Job σ} (h : Job.enter e r root label s = (.ok j, before)) :
    j.layout = ⟨root, r.version, label⟩ ∧ ∃ d, Entered r root before.store d := by
  obtain ⟨_, s₁, -, h⟩ := bind_eq_ok.1 h
  obtain ⟨config, s₂, -, h⟩ := bind_eq_ok.1 h
  obtain ⟨_, s₃, -, h⟩ := bind_eq_ok.1 h
  obtain ⟨_, s₄, hdirs, h⟩ := bind_eq_ok.1 h
  cases hmode : r.mode with
  | release =>
    rw [hmode] at h
    obtain ⟨_, s₅, -, h⟩ := bind_eq_ok.1 h
    obtain ⟨_, s₆, hmake, h⟩ := bind_eq_ok.1 h
    obtain ⟨_, s₇, hsay, h⟩ := bind_eq_ok.1 h
    obtain ⟨hj, rfl⟩ := outcome_inj.1 h
    obtain rfl := Except.ok.inj hj
    obtain ⟨hmade, -⟩ := ofWork_eq_ok hmake
    rw [ofFiles_eq_ok] at hmade
    rw [(Run.progress_eq_ok hsay).1]
    exact ⟨rfl, entered_of_makeDir hmode hmade⟩
  | develop =>
    rw [hmode] at h
    obtain ⟨_, s₅, hsay, h⟩ := bind_eq_ok.1 h
    obtain ⟨hj, rfl⟩ := outcome_inj.1 h
    obtain rfl := Except.ok.inj hj
    obtain ⟨_, u, -, hrelease⟩ := bind_eq_ok.1 hdirs
    obtain ⟨hmade, -⟩ := ofWork_eq_ok hrelease
    rw [ofFiles_eq_ok] at hmade
    rw [(Run.progress_eq_ok hsay).1]
    exact ⟨rfl, entered_of_makeDirs hmode hmade⟩

/-! ## The files of the archive -/

/-- What stood in `out` of a working directory when the generator was called, as an archive packs it: a
file as it is, a link as the file it leads to. -/
def Leftover (before opened : Store) (w : Path) (d rest : List Name) (content : Content) : Prop :=
  ∃ seen, before.top.look (d ++ Bytes.ofString Layout.generatedName :: rest) = some seen ∧
    Archive.Packs opened (rest.foldl Archive.entryPath (w / Layout.generatedName).bytes) seen content

/-- The files in an archive of `out` after the generator has written there. -/
theorem holds_iff_of_writes {before generated opened : Store} {w : Path} {d : List Name}
    {written : List Name → Option Content} {name m : Bytes} {content : Content}
    (hwrites : before.top.Writes (d ++ [Bytes.ofString Layout.generatedName]) written generated.top)
    {tree : Node} (htree : generated.top.get? (d ++ [Bytes.ofString Layout.generatedName]) = some tree) :
    Archive.Holds opened name (w / Layout.generatedName).bytes tree m content ↔
      ∃ rest : List Name, m = rest.foldl Archive.memberName name ∧
        (written rest = some content ∨ written rest = none ∧ Leftover before opened w d rest content) := by
  have hlook (rest : List Name) : tree.look rest =
      generated.top.look (d ++ [Bytes.ofString Layout.generatedName] ++ rest) := by
    rw [look_append, htree, Option.bind_some]
  have hbefore (rest : List Name) : d ++ Bytes.ofString Layout.generatedName :: rest =
      d ++ [Bytes.ofString Layout.generatedName] ++ rest := by
    rw [List.append_assoc, List.singleton_append]
  constructor
  · rintro ⟨rest, seen, rfl, hseen, hpacks⟩
    refine ⟨rest, rfl, ?_⟩
    rw [hlook] at hseen
    cases hwritten : written rest with
    | some new =>
      obtain ⟨executable, hfile⟩ := hwrites.file rest new hwritten
      rw [hfile] at hseen
      cases hseen
      exact .inl (congrArg some hpacks.symm)
    | none =>
      refine .inr ⟨rfl, seen, ?_, hpacks⟩
      rw [hbefore]
      obtain heq | ⟨-, hdir⟩ := hwrites.other_of_unwritten hwritten
      · rw [← heq, hseen]
      · rw [hdir] at hseen
        cases hseen
        exact hpacks.elim
  · rintro ⟨rest, rfl, hwritten | ⟨hwritten, seen, hseen, hpacks⟩⟩
    · obtain ⟨executable, hfile⟩ := hwrites.file rest content hwritten
      exact ⟨rest, _, rfl, (hlook rest).trans hfile, rfl⟩
    · refine ⟨rest, seen, rfl, ?_, hpacks⟩
      rw [hbefore] at hseen
      obtain heq | ⟨hnone, -⟩ := hwrites.other_of_unwritten hwritten
      · rw [hlook, heq, hseen]
      · rw [hseen] at hnone
        cases hnone

/-- What a run has archived: in the archive's place is an archive whose files are those that the generator
wrote and, in a development install, those that stood in `out` before and were not overwritten. Only a
link that stood in the release directory under the archive's name is moved in its place. -/
def ArchivesWritten (r : Request) (root : Path) (label : Label) (written : List Name → Option Content)
    (before generated archived : Store) : Prop :=
  let l : Layout := ⟨root, r.version, label⟩
  let file := Bytes.ofString l.archiveFileName
  ∃ d q, before.placeOf true (r.workDir root).bytes = .ok d ∧
    generated.place l.archivePath.bytes = .ok ⟨q, .name file, false⟩ ∧
    ((r.mode = .develop ∧ ∃ target, before.top.look (d ++ [file]) = some (.link target) ∧
        archived.top.look (q ++ [file]) = some (.link target)) ∨
      ∃ members executable,
        archived.top.get? (q ++ [file]) = some (.file (.archive .zip members) executable) ∧
        ∀ m content, Member.file m content ∈ members ↔
          ∃ rest : List Name, m = rest.foldl Archive.memberName (Bytes.ofString l.archiveRootName) ∧
            (written rest = some content ∨ r.mode = .develop ∧ written rest = none ∧
              Leftover before (l.drafting generated d executable) (r.workDir root) d rest content))

/-- The files of the archive that a run has written. -/
theorem Archives.holds {e : Executor σ} {r : Request} {root : Path} {label : Label}
    {s before generated archived : Session σ} (h : Archives e r root label s before generated archived)
    {written : List Name → Option Content}
    (hwrites : ∀ d, before.store.placeOf true (r.workDir root).bytes = .ok d →
      before.store.top.Writes (d ++ [Bytes.ofString Layout.generatedName]) written generated.store.top)
    (hcwd : generated.store.cwd = before.store.cwd) :
    ArchivesWritten r root label written before.store generated.store archived.store := by
  unfold ArchivesWritten
  intro l file
  obtain ⟨j, henter, -, harchive, -⟩ := h
  obtain ⟨hlayout, d, hreaches, hplace, hempty⟩ := Job.enter_eq_ok henter
  have hwritten := hwrites d hplace
  obtain ⟨_, u, hsay, hpack⟩ := bind_eq_ok.1 harchive
  have hstore := (Run.progress_eq_ok hsay).1
  have hreaches' : u.store.Reaches (r.workDir root) d := by
    rw [hstore]
    exact hreaches.keeps hwritten.keepsWays hcwd
  obtain ⟨q, hq, hlands⟩ := Job.archiveGenerated_lands hreaches' hpack
  rw [hlayout, hstore] at hq hlands
  refine ⟨d, q, hplace, hq, ?_⟩
  -- the archive's name is not touched by the generator
  have hdiffer : Bytes.ofString Layout.generatedName ≠ file := (l.archive_ne (by decide)).symm
  have hfile : generated.store.top.look (d ++ [file]) = before.store.top.look (d ++ [file]) :=
    hwritten.elsewhere (by rwa [entry_isPrefix_iff])
  obtain ⟨target, hlink, hmoved⟩ | ⟨entries, executable, hentries, hok, hfound⟩ := hlands
  · rw [hfile] at hlink
    cases hmode : r.mode with
    | develop => exact .inl ⟨rfl, target, hlink, hmoved⟩
    | release =>
      rw [hempty hmode] at hlink
      cases hlink
  · refine .inr ⟨_, executable, hfound, fun m content => ?_⟩
    rw [Layout.packed, Archive.file_mem_zipNode (hwritten.wellFormed.get? hentries) hok,
      holds_iff_of_writes hwritten hentries]
    refine exists_congr fun rest => and_congr_right fun _ => or_congr_right ?_
    cases hmode : r.mode with
    | develop => exact ⟨fun h => ⟨rfl, h⟩, And.right⟩
    | release =>
      constructor
      · rintro ⟨-, seen, hseen, -⟩
        rw [hempty hmode] at hseen
        cases hseen
      · rintro ⟨h, -⟩
        cases h

/-- Whatever stood in the tree, a run fails before its archive is in its place, or it writes one: if its generator has
only written below `out`, the files of the archive are those that this generator wrote, and with them, in a
development install only, what stood in `out` before. -/
theorem archive_holds_written_and_leftovers (e : Executor σ) (r : Request) (root : Path) (label : Label)
    (s : Session σ) :
    (∃ failure t, Job.upToArchive e r root label s = (.error failure, t) ∧
        package e r root label s = (.error failure, t)) ∨
      ∃ before generated archived, Archives e r root label s before generated archived ∧
        ∀ written : List Name → Option Content,
          (∀ d, before.store.placeOf true (r.workDir root).bytes = .ok d →
            before.store.top.Writes (d ++ [Bytes.ofString Layout.generatedName]) written generated.store.top) →
          generated.store.cwd = before.store.cwd →
          ArchivesWritten r root label written before.store generated.store archived.store := by
  obtain hfails | ⟨before, generated, archived, harchives⟩ := package_archives e r root label s
  · exact .inl hfails
  · exact .inr ⟨before, generated, archived, harchives, fun _ => harchives.holds⟩

/-! ## An install after one that failed -/

/-- Writes a module into `out` of a directory, which is made if it is missing. -/
def Store.writeModule (s : Store) (d : List Name) (name : Name) (content : Content) : Store :=
  let out := Bytes.ofString Layout.generatedName
  let made :=
    match s.top.look (d ++ [out]) with
    | none => s.put d out .emptyDir
    | some _ => s
  made.put (d ++ [out]) name (.file content false)

/-- What a generator that writes one module has written. -/
def oneModule (name : Name) (content : Content) (rest : List Name) : Option Content :=
  if rest = [name] then some content else none

theorem writes_writeModule {s : Store} (hs : s.top.WellFormed) {d : List Name} {name : Name}
    (hname : IsName name) (hdir : s.top.look d = some .dir)
    (hout : s.top.look (d ++ [Bytes.ofString Layout.generatedName]) = none ∨
      s.top.look (d ++ [Bytes.ofString Layout.generatedName]) = some .dir)
    (hover : s.top.look (d ++ [Bytes.ofString Layout.generatedName] ++ [name]) = none)
    (content : Content) :
    s.top.Writes (d ++ [Bytes.ofString Layout.generatedName]) (oneModule name content)
      (s.writeModule d name content).top := by
  rcases hout with hnone | hstands
  · have hmkdir := Writes.mkdir hs Layout.isName_generated hdir hnone List.prefix_rfl
    have hstands : (s.top.put d (Bytes.ofString Layout.generatedName) emptyDir).look
        (d ++ [Bytes.ofString Layout.generatedName]) = some .dir := by
      rw [look_put hdir, look_nil]
      rfl
    have hfree : (s.top.put d (Bytes.ofString Layout.generatedName) emptyDir).look
        (d ++ [Bytes.ofString Layout.generatedName] ++ [name]) = none := by
      rw [List.append_assoc, List.singleton_append, look_put hdir]
      rfl
    have hwrites := hmkdir.trans (Writes.put hmkdir.wellFormed hname hstands (.inl hfree) content false)
    simp only [Option.or_none] at hwrites
    rw [Store.writeModule, hnone]
    exact hwrites
  · rw [Store.writeModule, hstands]
    exact Writes.put hs hname hstands (.inl hover) content false

/-- A generator that writes one module and ends with a status; the other tools do nothing. -/
def Executor.writing (name : String) (content : Content) (status : WaitStatus) : Executor Unit where
  run c tools s :=
    if c.arguments.getLast? = some Layout.generatedName then
      { result := .ok status
        out := []
        err := []
        tools
        store :=
          match s.placeOf true c.cwd.bytes with
          | .ok d => s.writeModule d (Bytes.ofString name) content
          | .error _ => s }
    else { result := .ok .success, out := [], err := [], tools, store := s }

theorem Executor.run_writing (name : String) (content : Content) (status : WaitStatus) {j : Job Unit}
    {r : Request} {root : Path} {d : List Name} {s : Store}
    (hplace : s.placeOf true (r.workDir root).bytes = .ok d) :
    ((Executor.writing name content status).run (j.generatorCall r root) () s).store =
      s.writeModule d (Bytes.ofString name) content := by
  have hlast : (j.generatorCall r root).arguments.getLast? = some Layout.generatedName := by
    simp [Job.generatorCall, Call.generator, Call.generatorArguments, List.getLast?_cons]
  have hcwd : (j.generatorCall r root).cwd = r.workDir root := rfl
  simp only [Executor.writing, hlast, if_true, hcwd, hplace]

/-- A development install of the small checkout. -/
def smallInstall : Request := ⟨.develop, .v279, ⟨"/s"⟩, ⟨"/b"⟩, true⟩

/-- The small checkout after an install whose generator wrote `old.py` and failed. -/
def failedInstall : Store :=
  (package (.writing "old.py" (.plain [1]) (.ofExitCode 1)) smallInstall ⟨"/r"⟩ smallLabel
    (.start ⟨smallCheckout, []⟩ () ⟨none, []⟩ false)).2.store

/-- The install after it, whose generator writes `new.py`. -/
def nextInstall : Session Unit := .start failedInstall () ⟨none, []⟩ false

def newModule : Executor Unit := .writing "new.py" (.plain [2]) .success

/-- The files of a zip archive that stands at a place. -/
def filesAt (n : Node) (place : List Name) : Option (List Bytes) :=
  match n.get? place with
  | some (.file (.archive .zip members) _) => some ((members.filter Member.isFile).map Member.name)
  | _ => none

/-- The files of a zip archive that is seen. -/
def Node.Sight.files? : Sight → Option (List Bytes)
  | .file (.archive .zip members) _ => some ((members.filter Member.isFile).map Member.name)
  | _ => none

theorem filesAt_eq (n : Node) (place : List Name) : filesAt n place = (n.look place).bind Sight.files? := by
  rw [filesAt, look]
  cases n.get? place with
  | none => rfl
  | some node => rcases node with ⟨_ | ⟨_ | _, _⟩, _⟩ | _ | _ <;> rfl

theorem filesAt_congr {n m : Node} {place : List Name} (h : n.look place = m.look place) :
    filesAt n place = filesAt m place := by
  rw [filesAt_eq, filesAt_eq, h]

/-- Where the next install works, and where it puts its archive. -/
def smallRelease : List Name := [Bytes.ofString "r", Bytes.ofString "release"]

def smallArchive : List Name :=
  [Bytes.ofString "r", Bytes.ofString "raw_modules", Bytes.ofString "fake_bpy_modules_2.79-1.zip"]

theorem look_of_any_isDir {n : Node} {place : List Name} (h : (n.get? place).any Node.isDir = true) :
    n.look place = some .dir := by
  rw [look]
  cases hnode : n.get? place with
  | none => simp [hnode] at h
  | some node =>
    rw [hnode] at h
    cases node with
    | dir _ => rfl
    | file _ _ => cases h
    | link _ => cases h

/-- The next install comes to its archive, which holds its own module and the one that the failed install left. -/
theorem nextInstall_upToArchive : ∃ j archived,
    Job.upToArchive newModule smallInstall ⟨"/r"⟩ smallLabel nextInstall = (.ok j, archived) ∧
      filesAt archived.store.top smallArchive = some [Bytes.ofString "fake_bpy_modules_2.79-1/new.py",
        Bytes.ofString "fake_bpy_modules_2.79-1/old.py"] := by
  have hok : (Job.upToArchive newModule smallInstall ⟨"/r"⟩ smallLabel nextInstall).1.toBool = true ∧
      filesAt (Job.upToArchive newModule smallInstall ⟨"/r"⟩ smallLabel nextInstall).2.store.top smallArchive =
        some [Bytes.ofString "fake_bpy_modules_2.79-1/new.py",
          Bytes.ofString "fake_bpy_modules_2.79-1/old.py"] := by
    decide +kernel
  cases hrun : Job.upToArchive newModule smallInstall ⟨"/r"⟩ smallLabel nextInstall with
  | mk result archived =>
    rw [hrun] at hok
    cases result with
    | error failure => cases hok.1
    | ok j => exact ⟨j, archived, rfl, hok.2⟩

/-- The next install works in the release directory, and its generator writes one module there. -/
theorem nextInstall_writes {before generated archived : Session Unit}
    (h : Archives newModule smallInstall ⟨"/r"⟩ smallLabel nextInstall before generated archived) :
    before.store.placeOf true (smallInstall.workDir ⟨"/r"⟩).bytes = .ok smallRelease ∧
      before.store.top.Writes (smallRelease ++ [Bytes.ofString Layout.generatedName])
        (oneModule (Bytes.ofString "new.py") (.plain [2])) generated.store.top ∧
      generated.store.cwd = before.store.cwd := by
  have hready :
      let s := (Job.enter newModule smallInstall ⟨"/r"⟩ smallLabel nextInstall).2.store
      s.top.isWellFormed = true ∧
        (s.placeOf true (smallInstall.workDir ⟨"/r"⟩).bytes).toOption = some smallRelease ∧
        (s.top.get? smallRelease).any Node.isDir = true ∧
        (s.top.get? (smallRelease ++ [Bytes.ofString Layout.generatedName])).any Node.isDir = true ∧
        (s.top.get? (smallRelease ++ [Bytes.ofString Layout.generatedName] ++
          [Bytes.ofString "new.py"])).isNone = true := by
    decide +kernel
  obtain ⟨j, henter, hcall, -, -⟩ := h
  rw [henter] at hready
  obtain ⟨hwellFormed, hplace, hdir, hout, hfree⟩ := hready
  have hplaceOf := eq_ok_of_toOption hplace
  obtain ⟨-, -, hstore⟩ := Run.callChecked_eq_ok hcall
  rw [newModule, Executor.run_writing "new.py" _ _ hplaceOf] at hstore
  refine ⟨hplaceOf, ?_, ?_⟩
  · rw [hstore]
    exact writes_writeModule (wellFormed_of_isWellFormed _ hwellFormed) (by decide) (look_of_any_isDir hdir)
      (.inr (look_of_any_isDir hout)) (look_eq_none.2 (Option.isNone_iff_eq_none.1 hfree)) _
  · rw [hstore, Store.writeModule]
    split <;> rfl

/-- The modules that the next install archives, its own and the other one's. -/
theorem nextInstall_holds : ∃ before generated archived,
    Archives newModule smallInstall ⟨"/r"⟩ smallLabel nextInstall before generated archived ∧
      (∀ d, before.store.placeOf true (smallInstall.workDir ⟨"/r"⟩).bytes = .ok d →
        before.store.top.Writes (d ++ [Bytes.ofString Layout.generatedName])
          (oneModule (Bytes.ofString "new.py") (.plain [2])) generated.store.top) ∧
      generated.store.cwd = before.store.cwd ∧
      ArchivesWritten smallInstall ⟨"/r"⟩ smallLabel (oneModule (Bytes.ofString "new.py") (.plain [2]))
        before.store generated.store archived.store := by
  obtain ⟨j, done, hdone, -⟩ := nextInstall_upToArchive
  obtain ⟨failure, t, hfails, -⟩ | ⟨before, generated, archived, harchives, hholds⟩ :=
    archive_holds_written_and_leftovers newModule smallInstall ⟨"/r"⟩ smallLabel nextInstall
  · cases (outcome_inj.1 (hdone.symm.trans hfails)).1
  · obtain ⟨hplace, hwrites, hcwd⟩ := nextInstall_writes harchives
    have hall : ∀ d, before.store.placeOf true (smallInstall.workDir ⟨"/r"⟩).bytes = .ok d →
        before.store.top.Writes (d ++ [Bytes.ofString Layout.generatedName])
          (oneModule (Bytes.ofString "new.py") (.plain [2])) generated.store.top := by
      intro d hd
      rw [hplace] at hd
      cases hd
      exact hwrites
    exact ⟨before, generated, archived, harchives, hall, hcwd, hholds _ hall hcwd⟩

/-- An install after one that failed succeeds, and its archive holds a module that its own generator never wrote. -/
theorem leftover_reaches_archive :
    (package newModule smallInstall ⟨"/r"⟩ smallLabel nextInstall).1.toBool = true ∧
      ∃ (before generated archived : Session Unit) (members : List Member) (executable : Bool),
        Archives newModule smallInstall ⟨"/r"⟩ smallLabel nextInstall before generated archived ∧
          before.store.placeOf true (smallInstall.workDir ⟨"/r"⟩).bytes = .ok smallRelease ∧
          before.store.top.Writes (smallRelease ++ [Bytes.ofString Layout.generatedName])
            (oneModule (Bytes.ofString "new.py") (.plain [2])) generated.store.top ∧
          archived.store.top.get? smallArchive = some (.file (.archive .zip members) executable) ∧
          ¬ ∀ m, (∃ content, Member.file m content ∈ members) ↔
            ∃ (rest : List Name) (content : Content),
              m = rest.foldl Archive.memberName (Bytes.ofString "fake_bpy_modules_2.79-1") ∧
                oneModule (Bytes.ofString "new.py") (.plain [2]) rest = some content := by
  refine ⟨by decide +kernel, ?_⟩
  obtain ⟨j, archived, hdone, hfiles⟩ := nextInstall_upToArchive
  obtain ⟨before, generated, harchives⟩ := Archives.of_upToArchive hdone
  obtain ⟨hplace, hwrites, -⟩ := nextInstall_writes harchives
  rw [filesAt] at hfiles
  split at hfiles
  · rename_i members executable hnode
    refine ⟨before, generated, archived, members, executable, harchives, hplace, hwrites, hnode, ?_⟩
    intro hexact
    have hold : Bytes.ofString "fake_bpy_modules_2.79-1/old.py" ∈
        (members.filter Member.isFile).map Member.name := by
      rw [Option.some.inj hfiles]
      exact List.mem_cons_of_mem _ List.mem_cons_self
    obtain ⟨member, hmember, hname⟩ := List.mem_map.1 hold
    obtain ⟨hmem, hfile⟩ := List.mem_filter.1 hmember
    cases member with
    | directory _ => cases hfile
    | file name content =>
      obtain ⟨rest, _, hrest, hwritten⟩ := (hexact _).1 ⟨content, hmem⟩
      rw [oneModule] at hwritten
      split at hwritten
      · rename_i hnew
        have hname : name = Bytes.ofString "fake_bpy_modules_2.79-1/old.py" := hname
        rw [hname, hnew] at hrest
        exact absurd hrest (by decide)
      · cases hwritten
  · cases hfiles

end StubRelease
