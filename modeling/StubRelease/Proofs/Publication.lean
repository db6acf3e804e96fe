/-
# StubRelease.Proofs.Publication -- what a release publishes

A release that succeeds leaves two things: the archive of what the generator wrote and the distributions
that the setup script built. Main statement: in a tree without links, and with tools that work inside the
directory they are called in, both are exactly what stood in the working directory when the call that
made them returned, nothing stood where the distributions are now, and the working directory is gone.

Every directory that stood when the working directory was made goes on standing (`Prepared`), so the
paths of the run keep leading to the places they led to; apart from what is published everything happens
inside the working directory.
-/
import StubRelease.Proofs.Archiving
import StubRelease.Proofs.Contents
import StubRelease.Proofs.Staging
import StubRelease.Proofs.ToolTrace

namespace StubRelease

open Sequence Node

variable {σ : Type}

/-! ## Tools that work inside their directory -/

/-- Calls are seen to change nothing but what is strictly inside the directory they run in, and bring no
links into a tree that has none. -/
def Executor.Confined (e : Executor σ) : Prop :=
  ∀ c tools (s : Store) w, s.top.Plain → s.placeOf true c.cwd.bytes = .ok w →
    s.top.ChangesIn (Inside w) (e.run c tools s).store.top

namespace Run

variable {s t : Session σ}

theorem progress_eq_ok {quiet : Bool} {text : String} {a : Unit}
    (h : progress quiet text s = (.ok a, t)) : t.store = s.store ∧ t.history = s.history := by
  rw [progress] at h
  cases quiet with
  | true =>
    obtain ⟨-, rfl⟩ := outcome_inj.1 h
    exact ⟨rfl, rfl⟩
  | false =>
    obtain ⟨-, rfl⟩ := outcome_inj.1 h
    exact ⟨rfl, rfl⟩

/-- A call that succeeded is the last one in the history, with the store it left. -/
theorem callChecked_eq_ok {e : Executor σ} {c : Call} {a : Unit}
    (h : callChecked e c s = (.ok a, t)) :
    ∃ result, t.history = s.history ++ [⟨c, result, t.store⟩] ∧
      t.store = (e.run c s.tools s.store).store := by
  obtain ⟨status, u, hcall, hchecked⟩ := bind_eq_ok.1 h
  obtain ⟨-, rfl⟩ := outcome_inj.1 hcall
  split at hchecked
  · obtain ⟨-, rfl⟩ := outcome_inj.1 hchecked
    exact ⟨_, rfl, rfl⟩
  · cases (outcome_inj.1 hchecked).1

end Run

/-! ## The working directory -/

namespace Layout

/-- A checkout whose output directories stand and in which the working directory can be made. -/
structure Ready (l : Layout) (base : Store) : Prop where
  names : base.Names l.root ("tmp-" ++ l.version.text)
  free : base.top.look l.workDir.place = none
  rawModules : base.Opens l.rawModulesDir
  release : base.Opens l.releaseDir

/-- A tree without links in which the working directory stands, and with it all directories that stood
when it was made. -/
structure Prepared (l : Layout) (base s : Store) : Prop where
  plain : s.top.Plain
  keeps : base.top.KeepsDirs s.top
  stands : s.top.look l.workDir.place = some .dir

variable {l : Layout} {base s t : Store}

/-- Nothing stands yet at the place of the working directory or below it. -/
theorem Ready.not_isPrefix (h : l.Ready base) {p : List Name} (hp : base.top.look p = some .dir) :
    ¬ l.workDir.place <+: p := by
  intro hprefix
  have hnot : base.top.look l.workDir.place ≠ some .dir := by
    rw [h.free]
    simp
  rw [eq_of_isPrefix_of_look hnot hp hprefix, h.free] at hp
  cases hp

namespace Prepared

/-- Changes inside the working directory take none of the earlier directories away. -/
theorem inside (hbase : l.Ready base) (h : l.Prepared base s)
    (hchanges : s.top.ChangesIn (Inside l.workDir.place) t.top) : l.Prepared base t where
  plain := hchanges.plain
  keeps := h.keeps.of_changesIn hchanges fun _ hp hinside => hbase.not_isPrefix hp hinside.isPrefix
  stands := by rw [hchanges.look _ (not_inside_self _), h.stands]

/-- What is removed from the working directory is inside it. -/
theorem drop (hbase : l.Ready base) (h : l.Prepared base s) (name : Name) :
    l.Prepared base (s.drop l.workDir.place name) :=
  h.inside hbase ((ChangesIn.drop h.plain l.workDir.place name).mono fun _ => inside_of_entry)

/-- An entry that takes the place of no directory takes none of the earlier directories away. -/
theorem put (h : l.Prepared base s) {place : List Name} {name : Name} (hname : IsName name)
    {child : Node} (hchild : child.Plain) (hnot : s.top.look (place ++ [name]) ≠ some .dir) :
    l.Prepared base (s.put place name child) where
  plain := h.plain.put place hname hchild
  keeps := h.keeps.trans (KeepsDirs.put hnot child)
  stands := KeepsDirs.put hnot child _ h.stands

/-- An entry of the working directory can be moved out of it, to where no directory stands. -/
theorem move (hbase : l.Ready base) (h : l.Prepared base s) (taken : Name) {place : List Name}
    {name : Name} (hname : IsName name) {child : Node} (hchild : child.Plain)
    (haway : ¬ l.workDir.place <+: place ++ [name]) (hnot : s.top.look (place ++ [name]) ≠ some .dir) :
    l.Prepared base ((s.drop l.workDir.place taken).put place name child) := by
  refine (h.drop hbase taken).put hname hchild ?_
  rwa [Store.top_drop, (ChangesIn.drop h.plain l.workDir.place taken).look]
  intro hat
  exact haway ((List.prefix_append _ _).trans hat)

/-- A step of the release that works inside the working directory and calls no tool. -/
theorem ofWork (hbase : l.Ready base) {s t : Session σ} (h : l.Prepared base s.store) {α : Type}
    {step : Work α} {a : α}
    (hchanges : s.store.top.ChangesIn (Inside l.workDir.place) (step s.store).2.top)
    (hstep : Run.ofWork step s = (.ok a, t)) :
    l.Prepared base t.store ∧ s.store.top.ChangesIn (Inside l.workDir.place) t.store.top ∧
      t.history = s.history := by
  obtain ⟨hworked, hhistory⟩ := ofWork_eq_ok hstep
  rw [hworked] at hchanges
  exact ⟨h.inside hbase hchanges, hchanges, hhistory⟩

/-- A call in the working directory works inside it. -/
theorem call (hbase : l.Ready base) {e : Executor σ} (he : e.Confined) {s t : Session σ}
    (h : l.Prepared base s.store) {c : Call} (hcwd : c.cwd = l.workDir) {a : Unit}
    (hcall : Run.callChecked e c s = (.ok a, t)) :
    l.Prepared base t.store ∧ s.store.top.ChangesIn (Inside l.workDir.place) t.store.top ∧
      ∃ result, t.history = s.history ++ [⟨c, result, t.store⟩] := by
  have hroot := hbase.names.opens.absolute
  obtain ⟨result, hhistory, hstore⟩ := Run.callChecked_eq_ok hcall
  have hplace : s.store.placeOf true c.cwd.bytes = .ok l.workDir.place := by
    rw [hcwd, place_workDir]
    refine Store.placeOf_of_names (isName_work l.version) h.plain.linkFree true
      (hbase.names.mono h.keeps) ?_
    rw [← place_workDir, h.stands]
    simp
  have hchanges := he c s.tools s.store _ h.plain hplace
  rw [← hstore] at hchanges
  exact ⟨h.inside hbase hchanges, hchanges, result, hhistory⟩

end Prepared

end Layout

/-! ## The archive -/

/-- The archive of a generated tree unpacks to the tree, under its one top name. -/
theorem Layout.unpack_packed (l : Layout) {opened : Store} {w : Path} {tree : Node} (h : tree.Plain)
    (hok : (l.packed opened w tree).failure = none) :
    Archive.unpack (l.packed opened w tree).members =
      .dir [(Bytes.ofString l.archiveRootName, tree.withoutModes)] :=
  Archive.unpack_zipNode (Archive.memberPlace_of_isName l.isName_archiveRoot) h hok

namespace Job

variable {j : Job σ} {base : Store} {s t : Session σ}

/-- What archiving has done when it succeeds: the archive of the generated directory, as it stands, is at
the archive's place. -/
theorem archiveGenerated_eq_ok {w : Path} (hs : s.store.top.Plain)
    (hroot : j.layout.root.isAbsolute = true) (hw : w.isAbsolute = true)
    (hne : w.place ≠ j.layout.rawModulesDir.place) {a : Unit}
    (h : j.archiveGenerated w s = (.ok a, t)) :
    t.history = s.history ∧ ∃ entries opened executable,
      s.store.nodeAt false (w / Layout.generatedName).bytes = .ok (.dir entries) ∧
      (j.layout.packed opened w (.dir entries)).failure = none ∧
      s.store.top.look (w.place ++ [Bytes.ofString j.layout.archiveFileName]) ≠ some .dir ∧
      s.store.top.look j.layout.archivePath.place ≠ some .dir ∧
      j.layout.archivePath.bytes.length < Route.lengthLimit ∧
      (Bytes.ofString j.layout.archiveFileName).length ≤ Route.nameLimit ∧
      t.store = (s.store.drop w.place (Bytes.ofString j.layout.archiveFileName)).put
        j.layout.rawModulesDir.place (Bytes.ofString j.layout.archiveFileName)
        (.file (.archive .zip (j.layout.packed opened w (.dir entries)).members) executable) := by
  have hfile := j.layout.isName_archive
  have hraw : j.layout.rawModulesDir.isAbsolute = true := Path.isAbsolute_div _ hroot
  have hdiffer : Bytes.ofString Layout.generatedName ≠ Bytes.ofString j.layout.archiveFileName :=
    (j.layout.archive_ne (by decide)).symm
  obtain ⟨summary, u, hzip, hrename⟩ := bind_eq_ok.1 h
  obtain ⟨hzipped, hhistory⟩ := ofWork_eq_ok hzip
  obtain ⟨hfits, hnot, hpath, entries, opened, executable, hentries, hok, hstore⟩ :=
    Archive.zipDirectory_eq_ok hs.linkFree hw Layout.isName_generated hfile hdiffer hzipped
  obtain ⟨hmoved, hhistory'⟩ := ofWork_eq_ok hrename
  rw [ofFiles_eq_ok, hpath, hstore] at hmoved
  have hplain := hs.put w.place hfile (Plain.file (.archive .zip
    (j.layout.packed opened w (.dir entries)).members) executable)
  obtain ⟨node, hmoves, hstore'⟩ := Files.rename_eq_ok hplain.linkFree hw hraw hfile hfile
    (fun heq => hne (List.append_inj_left' heq rfl)) hmoved
  have hnode := hmoves.found
  rw [Store.top_put, Node.get?_put_self hfits.opens.look_place] at hnode
  obtain rfl := Option.some.inj hnode
  have haway : ¬ w.place ++ [Bytes.ofString j.layout.archiveFileName] <+:
      j.layout.rawModulesDir.place ++ [Bytes.ofString j.layout.archiveFileName] := by
    intro h
    rcases List.prefix_concat_iff.1 h with heq | hdown
    · exact hmoves.ne heq
    · exact hmoves.down hdown
  have hreplaced : s.store.top.look j.layout.archivePath.place ≠ some .dir := by
    rw [Layout.archivePath, Path.place_div hfile, ← Node.look_put_elsewhere _ _ haway]
    exact (Files.mayReplace_eq_ok_of_not_dir rfl).1 hmoves.mayReplace
  refine ⟨hhistory'.trans hhistory, entries, opened, executable, hentries, hok, hnot, hreplaced,
    hmoves.dest.fits, hmoves.dest.short, ?_⟩
  rw [hstore', Store.drop_put]
  rfl

/-- The archive of a generated tree stands in a checkout: it holds the tree, no directory gave way to it,
and its path and its name were not too long. -/
structure Archived (l : Layout) (tree : Node) (before after : Store) : Prop where
  tree_plain : tree.Plain
  tree_isDir : tree.isDir = true
  fits : l.archivePath.bytes.length < Route.lengthLimit
  short : (Bytes.ofString l.archiveFileName).length ≤ Route.nameLimit
  replaced : before.top.look l.archivePath.place ≠ some .dir
  found : ∃ members executable,
    after.top.look l.archivePath.place = some (.file (.archive .zip members) executable) ∧
      Archive.unpack members = .dir [(Bytes.ofString l.archiveRootName, tree.withoutModes)]

/-- Whether an archive stands is seen at its place only. -/
theorem Archived.of_look {l : Layout} {tree : Node} {before after before' after' : Store}
    (h : Archived l tree before after)
    (hbefore : before.top.look l.archivePath.place = before'.top.look l.archivePath.place)
    (hafter : after'.top.look l.archivePath.place = after.top.look l.archivePath.place) :
    Archived l tree before' after' where
  tree_plain := h.tree_plain
  tree_isDir := h.tree_isDir
  fits := h.fits
  short := h.short
  replaced := hbefore ▸ h.replaced
  found := by
    rw [hafter]
    exact h.found

/-- A run is seen to change the inside of its working directory and its archive. -/
abbrev ChangesRun (l : Layout) (before after : Store) : Prop :=
  before.top.ChangesIn (fun p => Inside l.workDir.place p ∨ l.archivePath.place <+: p) after.top

/-- Archiving in a prepared checkout. -/
theorem archiveGenerated_archived (hbase : j.layout.Ready base) (hs : j.layout.Prepared base s.store)
    {a : Unit} (h : j.archiveGenerated j.layout.workDir s = (.ok a, t)) :
    t.history = s.history ∧ j.layout.Prepared base t.store ∧ ChangesRun j.layout s.store t.store ∧
      ∃ tree, s.store.nodeAt false (j.layout.workDir / Layout.generatedName).bytes = .ok tree ∧
        Archived j.layout tree s.store t.store := by
  have hroot := hbase.names.opens.absolute
  have hplace := Layout.place_archivePath (l := j.layout)
  have hdiffer : j.layout.workDir.place ≠ j.layout.rawModulesDir.place := by
    rw [Layout.place_workDir, Layout.place_rawModulesDir]
    intro heq
    exact Layout.work_ne_rawModules _ (List.singleton_inj.1 (List.append_cancel_left heq))
  obtain ⟨hhistory, entries, opened, executable, hentries, hok, -, hreplaced, hfits, hshort,
    hstore⟩ := archiveGenerated_eq_ok (w := j.layout.workDir) hs.plain hroot
      (Path.isAbsolute_div _ hroot) hdiffer h
  rw [hplace] at hreplaced
  have hfile := Plain.file (.archive .zip
    (j.layout.packed opened j.layout.workDir (.dir entries)).members) executable
  have haway := Layout.not_work_isPrefix_archivePath (l := j.layout)
  rw [hplace] at haway
  have hchanges := ChangesIn.move hs.plain j.layout.workDir.place
    (Bytes.ofString j.layout.archiveFileName) j.layout.rawModulesDir.place j.layout.isName_archive hfile
  have hmoved := hs.move hbase (Bytes.ofString j.layout.archiveFileName) j.layout.isName_archive hfile
    haway hreplaced
  have hstands := (hs.drop hbase (Bytes.ofString j.layout.archiveFileName)).keeps _
    hbase.rawModules.look_place
  obtain ⟨-, hget⟩ := (Store.nodeAt_div_eq_ok Layout.isName_generated hs.plain.linkFree
    (Path.isAbsolute_div _ hroot)).1 hentries
  refine ⟨hhistory, ?_, ?_, .dir entries, hentries, hs.plain.get? hget, rfl, hfits, hshort, ?_,
    (j.layout.packed opened j.layout.workDir (.dir entries)).members, executable, ?_,
    j.layout.unpack_packed (hs.plain.get? hget) hok⟩
  · rw [hstore]
    exact hmoved
  · rw [ChangesRun, hstore, hplace]
    exact hchanges.mono fun _ hp => hp.imp_left inside_of_entry
  · rwa [hplace]
  · rw [hstore, hplace, Store.top_put, Node.look_put hstands, Node.look_nil]
    rfl

/-- The readme is made by a call in the working directory. -/
theorem convertReadme_prepared (he : j.executor.Confined) (hbase : j.layout.Ready base)
    (hs : j.layout.Prepared base s.store) {a : Unit}
    (h : Staging.convertReadme j.executor j.layout.workDir j.config s = (.ok a, t)) :
    j.layout.Prepared base t.store ∧
      s.store.top.ChangesIn (Inside j.layout.workDir.place) t.store.top ∧
      ∃ result, t.history = s.history ++ [⟨.readme j.config j.layout.workDir, result, t.store⟩] := by
  obtain ⟨_, u, hready, hconverted⟩ := bind_eq_ok.1 h
  obtain ⟨hready, hhistory⟩ := ofWork_eq_ok hready
  obtain ⟨-, hstore⟩ := require_eq_ok.1 hready
  rw [hstore] at hs ⊢
  rw [← hhistory]
  exact hs.call hbase he rfl hconverted

/-- The generated tree goes into the archive as it is, and apart from the archive everything happens
inside the working directory. -/
theorem generateAndStage_archived (he : j.executor.Confined) (hbase : j.layout.Ready base)
    (hs : j.layout.Prepared base s.store) {mode : Mode} {path : Path}
    (h : j.generateAndStage mode j.layout.workDir s = (.ok path, t)) :
    path = j.layout.archivePath ∧ j.layout.Prepared base t.store ∧
      ChangesRun j.layout s.store t.store ∧
      ∃ generated converted : ToolEvent, t.history = s.history ++ [generated, converted] ∧
        generated.call = .generator j.config mode j.layout.version j.sourceDir j.blenderDir
          j.layout.workDir ∧
        converted.call = .readme j.config j.layout.workDir ∧
        ∃ tree, generated.after.nodeAt false (j.layout.workDir / Layout.generatedName).bytes = .ok tree ∧
          Archived j.layout tree s.store t.store := by
  have hroot := hbase.names.opens.absolute
  have hwork : j.layout.workDir.isAbsolute = true := Path.isAbsolute_div _ hroot
  have hinside : ∀ p, Inside j.layout.workDir.place p →
      Inside j.layout.workDir.place p ∨ j.layout.archivePath.place <+: p := fun _ => .inl
  obtain ⟨_, s₁, hsay₁, hrest⟩ := bind_eq_ok.1 h
  obtain ⟨_, s₂, hgenerate, hrest⟩ := bind_eq_ok.1 hrest
  obtain ⟨_, s₃, hsay₃, hrest⟩ := bind_eq_ok.1 hrest
  obtain ⟨_, s₄, harchive, hrest⟩ := bind_eq_ok.1 hrest
  obtain ⟨_, s₅, hpromote, hrest⟩ := bind_eq_ok.1 hrest
  obtain ⟨_, s₆, hcopy, hrest⟩ := bind_eq_ok.1 hrest
  obtain ⟨_, s₇, hsay₇, hrest⟩ := bind_eq_ok.1 hrest
  obtain ⟨_, s₈, hconvert, hdone⟩ := bind_eq_ok.1 hrest
  obtain ⟨hpath, rfl⟩ := outcome_inj.1 hdone
  obtain ⟨hstore₁, hhistory₁⟩ := Run.progress_eq_ok hsay₁
  obtain ⟨hstore₃, hhistory₃⟩ := Run.progress_eq_ok hsay₃
  obtain ⟨hstore₇, hhistory₇⟩ := Run.progress_eq_ok hsay₇
  -- the generator
  rw [← hstore₁] at hs ⊢
  obtain ⟨hs₂, hchanges₂, generated, hhistory₂⟩ := hs.call hbase he rfl hgenerate
  -- the archive
  rw [← hstore₃] at hs₂ hchanges₂
  obtain ⟨hhistory₄, hs₄, hchanges₄, tree, htree, harchived⟩ :=
    archiveGenerated_archived hbase hs₂ harchive
  -- staging and the readme
  obtain ⟨hs₅, hchanges₅, hhistory₅⟩ :=
    hs₄.ofWork hbase (Staging.promoteGenerated_changes hs₄.plain hwork) hpromote
  obtain ⟨hs₆, hchanges₆, hhistory₆⟩ :=
    hs₅.ofWork hbase (Staging.copyMetadata_changes hs₅.plain hwork j.config) hcopy
  rw [← hstore₇] at hs₆ hchanges₆
  obtain ⟨hs₈, hchanges₈, converted, hhistory₈⟩ := convertReadme_prepared he hbase hs₆ hconvert
  -- nothing after the archiving comes near the archive
  have hstaged := (hchanges₅.trans hchanges₆).trans hchanges₈
  have hnot := Layout.not_inside_archivePath (l := j.layout)
  refine ⟨(Except.ok.inj hpath).symm, hs₈,
    ((hchanges₂.mono hinside).trans hchanges₄).trans (hstaged.mono hinside),
    ⟨_, generated, s₂.store⟩, ⟨_, converted, s₈.store⟩, ?_, rfl, rfl, tree, ?_,
    harchived.of_look (hchanges₂.look _ hnot) (hstaged.look _ hnot)⟩
  · rw [hhistory₈, hhistory₇, hhistory₆, hhistory₅, hhistory₄, hhistory₃, hhistory₂, hhistory₁,
      List.append_assoc]
    rfl
  · rw [← hstore₃]
    exact htree

/-! ## The distributions -/

/-- The setup script works inside the working directory, command after command. -/
theorem runSetup_prepared (he : j.executor.Confined) (hbase : j.layout.Ready base)
    (hs : j.layout.Prepared base s.store) (commands : List SetupCommand) {a : Unit}
    (h : j.runSetup j.layout.workDir commands s = (.ok a, t)) :
    j.layout.Prepared base t.store ∧
      s.store.top.ChangesIn (Inside j.layout.workDir.place) t.store.top ∧
      ∃ events : List ToolEvent, t.history = s.history ++ events ∧
        events.map (·.call) = commands.map (.setup j.config · j.layout.workDir) ∧
        ∀ last, events.getLast? = some last → last.after = t.store := by
  induction commands generalizing s with
  | nil =>
    obtain ⟨-, rfl⟩ := outcome_inj.1 h
    exact ⟨hs, .refl hs.plain, [], by simp, rfl, by simp⟩
  | cons command rest ih =>
    obtain ⟨_, s₁, hsay, hmore⟩ := bind_eq_ok.1 h
    obtain ⟨_, s₂, hcall, hlast⟩ := bind_eq_ok.1 hmore
    obtain ⟨hstore₁, hhistory₁⟩ := Run.progress_eq_ok hsay
    rw [← hstore₁] at hs ⊢
    obtain ⟨hs₂, hchanges₂, result, hhistory₂⟩ := hs.call hbase he rfl hcall
    obtain ⟨ht, hchanges, events, hhistory, hcalls, hafter⟩ := ih hs₂ hlast
    refine ⟨ht, hchanges₂.trans hchanges,
      ⟨.setup j.config command j.layout.workDir, result, s₂.store⟩ :: events, ?_, ?_, ?_⟩
    · rw [hhistory, hhistory₂, hhistory₁, List.append_assoc]
      rfl
    · rw [List.map_cons, List.map_cons, hcalls]
    · intro last hlastEvent
      cases events with
      | nil =>
        -- the one call was the last, so the rest of the commands is empty
        cases rest with
        | nil =>
          obtain ⟨-, rfl⟩ := outcome_inj.1 hlast
          rw [← Option.some.inj hlastEvent]
          rfl
        | cons _ _ => cases hcalls
      | cons first more =>
        rw [List.getLast?_cons_cons] at hlastEvent
        exact hafter last hlastEvent

end Job

namespace Layout

variable {l : Layout} {base s t : Store}

/-- The distributions were moved, as they were, to where nothing stood. -/
structure Moved (l : Layout) (built after : Store) : Prop where
  fits : (l.versionReleaseDir / distName).bytes.length < Route.lengthLimit
  dist : ∃ entries, built.nodeAt false (l.workDir / distName).bytes = .ok (.dir entries) ∧
    after.top.get? (l.versionReleaseDir / distName).place = some (.dir entries)
  free : built.top.look (l.versionReleaseDir / distName).place = none

/-- Making the directory of the version changes this version's part of the release tree only. -/
theorem makeVersionDir_changes (hs : s.top.Plain) (hrelease : s.Opens l.releaseDir) :
    s.top.ChangesIn (l.versionReleaseDir.place <+: ·) (Files.makeDirs l.versionReleaseDir.bytes s).2.top := by
  have hmakes := Files.makeDirs_adds (P := fun _ => False) hs (isName_version l.version) hrelease.reaches
    (length_version_le l.version)
  rw [place_versionReleaseDir]
  exact (hmakes.alters (fun _ => False.elim) (by rintro p rfl; exact List.prefix_rfl)).changes

/-- Publishing changes the working directory from the inside, and this version's part of the release
tree. -/
theorem publishDist_moved (hbase : l.Ready base) (hs : l.Prepared base s) {dist : Path}
    (h : Staging.publishDist l.workDir l.versionReleaseDir s = (.ok dist, t)) :
    dist = l.versionReleaseDir / distName ∧ l.Prepared base t ∧ l.Moved s t ∧
      s.top.ChangesIn (fun p => Inside l.workDir.place p ∨ l.versionReleaseDir.place <+: p) t.top := by
  have hroot := hbase.names.opens.absolute
  have hwork : l.workDir.isAbsolute = true := Layout.isAbsolute_workDir hroot
  have hrelease : l.releaseDir.isAbsolute = true := Path.isAbsolute_div _ hroot
  have hversion : l.versionReleaseDir.isAbsolute = true := Path.isAbsolute_div _ hrelease
  have hplace := place_dist (l := l)
  obtain ⟨hdist, u, node, hmade, ⟨entries, hentries⟩, hmoves, hnone, rfl⟩ :=
    Staging.publishDist_eq_ok hs.plain hwork hversion h
  have hchanges := makeVersionDir_changes hs.plain (hbase.release.mono hs.keeps)
  have hgrows := Files.makeDirs_grows hs.plain l.versionReleaseDir.bytes
  rw [hmade] at hchanges hgrows
  have hapart (p : List Name) (hp : l.versionReleaseDir.place <+: p) : ¬ l.workDir.place <+: p :=
    not_work_isPrefix (releaseDir_isPrefix_version.trans hp)
  -- making the directory of the version touches nothing in the working directory
  have hu : l.Prepared base u := by
    refine ⟨hchanges.plain, hs.keeps.trans hgrows.keepsDirs, ?_⟩
    exact hgrows.look_eq hs.stands
  have hnode : s.top.get? (l.workDir.place ++ [Bytes.ofString distName]) = some node := by
    rw [← hchanges.get?_eq hs.plain, hmoves.found]
    intro p hp hversion
    exact hapart p hversion ((List.prefix_append _ _).trans hp)
  obtain ⟨-, hdir⟩ := (Store.nodeAt_div_eq_ok isName_dist hs.plain.linkFree hwork).1 hentries
  obtain rfl := Option.some.inj (hnode.symm.trans hdir)
  -- moving the distributions
  have hmoved := ChangesIn.move hchanges.plain l.workDir.place (Bytes.ofString distName)
    l.versionReleaseDir.place isName_dist (hs.plain.get? hdir)
  have hstands : (u.top.drop l.workDir.place (Bytes.ofString distName)).look
      l.versionReleaseDir.place = some .dir := by
    rw [(ChangesIn.drop hchanges.plain _ _).look]
    · exact hmoves.dest.opens.look_place
    · intro hat
      exact hapart _ List.prefix_rfl ((List.prefix_append _ _).trans hat)
  refine ⟨hdist, ?_, ⟨hmoves.dest.fits, ⟨entries, hentries, ?_⟩, ?_⟩, ?_⟩
  · refine hu.move hbase _ isName_dist (hs.plain.get? hdir) (hapart _ (List.prefix_append _ _)) ?_
    rw [hnone]
    simp
  · rw [hplace, Store.top_put, Store.top_drop, Node.get?_put_self hstands]
  · rw [hplace]
    cases hseen : s.top.look (l.versionReleaseDir.place ++ [Bytes.ofString distName]) with
    | none => rfl
    | some seen =>
      rw [hgrows.look_eq hseen] at hnone
      cases hnone
  · refine (hchanges.mono fun _ => .inr).trans (hmoved.mono fun p hp => ?_)
    exact hp.imp inside_of_entry (List.prefix_append _ _).trans

end Layout

/-! ## A release -/

/-- What a release of a version under a label has published: `generated` and `wheel` are the files that
the generator and the last command of the setup script left. -/
structure Publishes (root : Path) (v : Version) (label : Label) (outcome : Outcome)
    (before after generated wheel : Store) : Prop where
  archive_path : outcome.archive =
    root / "raw_modules" / ("fake_bpy_modules_" ++ v.text ++ "-" ++ label.text ++ ".zip")
  /-- The archive unpacks to what the generator left in `out`, under one top name. -/
  archive : ∃ tree, generated.nodeAt false (root / ("tmp-" ++ v.text) / "out").bytes = .ok tree ∧
    tree.isDir = true ∧ ∃ members executable,
      after.nodeAt false outcome.archive.bytes = .ok (.file (.archive .zip members) executable) ∧
      Archive.unpack members =
        .dir [(Bytes.ofString ("fake_bpy_modules_" ++ v.text ++ "-" ++ label.text), tree.withoutModes)]
  dist_path : outcome.dist = some (root / "release" / v.text / "dist")
  /-- The distributions are what the setup script left in `dist`. -/
  dist : ∃ entries, wheel.nodeAt false (root / ("tmp-" ++ v.text) / "dist").bytes = .ok (.dir entries) ∧
    after.nodeAt false (root / "release" / v.text / "dist").bytes = .ok (.dir entries)
  /-- Nothing stood where the distributions are. -/
  free : before.hasEntry (root / "release" / v.text / "dist").bytes = false
  /-- The working directory is gone. -/
  cleared : after.hasEntry (root / ("tmp-" ++ v.text)).bytes = false

namespace Layout

theorem archiveRootName_eq (l : Layout) :
    l.archiveRootName = "fake_bpy_modules_" ++ l.version.text ++ "-" ++ l.label.text := rfl

theorem archivePath_eq (l : Layout) : l.archivePath =
    l.root / "raw_modules" / ("fake_bpy_modules_" ++ l.version.text ++ "-" ++ l.label.text ++ ".zip") :=
  rfl

end Layout

namespace Job

variable {j : Job σ} {base : Store} {s t : Session σ}

/-- What is built in a working directory that was just made, and published. -/
theorem releaseIn_published (he : j.executor.Confined) (hbase : j.layout.Ready base)
    (hs : j.layout.Prepared base s.store) {outcome : Outcome}
    (h : j.releaseIn j.layout.workDir s = (.ok outcome, t)) :
    outcome = ⟨j.layout.archivePath, some (j.layout.versionReleaseDir / Layout.distName)⟩ ∧
      j.layout.Prepared base t.store ∧
      s.store.top.look (j.layout.versionReleaseDir / Layout.distName).place = none ∧
      ∃ generated converted source wheel : ToolEvent,
        t.history = s.history ++ [generated, converted, source, wheel] ∧
        [generated, converted, source, wheel].map (·.call) =
          [.generator j.config .release j.layout.version j.sourceDir j.blenderDir j.layout.workDir,
            .readme j.config j.layout.workDir, .setup j.config .sdist j.layout.workDir,
            .setup j.config .bdistWheel j.layout.workDir] ∧
        j.layout.Moved wheel.after t.store ∧
        ∃ tree, generated.after.nodeAt false (j.layout.workDir / Layout.generatedName).bytes = .ok tree ∧
          Archived j.layout tree s.store t.store := by
  have hroot := hbase.names.opens.absolute
  obtain ⟨_, s₁, hstage, hrest⟩ := bind_eq_ok.1 h
  obtain ⟨_, s₂, hsetup, hrest⟩ := bind_eq_ok.1 hrest
  obtain ⟨_, s₃, hpublish, hdone⟩ := bind_eq_ok.1 hrest
  obtain ⟨houtcome, rfl⟩ := outcome_inj.1 hdone
  obtain ⟨rfl, hs₁, hchanges₁, generated, converted, hhistory₁, hgenerate, hconvert, tree, htree,
    harchived⟩ := generateAndStage_archived he hbase hs hstage
  obtain ⟨hs₂, hchanges₂, events, hhistory₂, hcalls, hafter⟩ :=
    runSetup_prepared he hbase hs₁ SetupCommand.forRelease hsetup
  obtain ⟨hpublished, hhistory₃⟩ := ofWork_eq_ok hpublish
  obtain ⟨rfl, hs₃, hmoved, hchanges₃⟩ := Layout.publishDist_moved hbase hs₂ hpublished
  obtain ⟨source, wheel, rfl⟩ : ∃ source wheel, events = [source, wheel] := by
    have hlength := congrArg List.length hcalls
    match events, hlength with
    | [source, wheel], _ => exact ⟨source, wheel, rfl⟩
  have hwheel := hafter wheel rfl
  have harchive := Layout.rawModulesDir_isPrefix_archivePath (l := j.layout)
  have hdist := Layout.releaseDir_isPrefix_dist (l := j.layout)
  have hnotInside : ¬ Inside j.layout.workDir.place
      (j.layout.versionReleaseDir / Layout.distName).place := fun hinside =>
    Layout.not_work_isPrefix hdist hinside.isPrefix
  refine ⟨(Except.ok.inj houtcome).symm, hs₃, ?_, generated, converted, source, wheel, ?_, ?_, ?_, tree,
    htree, harchived.of_look rfl ?_⟩
  · rw [← hmoved.free, hchanges₂.look _ hnotInside, hchanges₁.look]
    rintro (hinside | hprefix)
    · exact hnotInside hinside
    · exact Layout.not_rawModules_isPrefix hdist (harchive.trans hprefix)
  · rw [hhistory₃, hhistory₂, hhistory₁, List.append_assoc]
    rfl
  · rw [List.map_cons, List.map_cons, hcalls, hgenerate, hconvert]
    rfl
  · rwa [hwheel]
  · rw [hchanges₃.look, hchanges₂.look _ Layout.not_inside_archivePath]
    rintro (hinside | hprefix)
    · exact Layout.not_inside_archivePath hinside
    · exact Layout.not_rawModules_isPrefix
        (Layout.releaseDir_isPrefix_version.trans hprefix) harchive

/-- Making the output directories lets the tree grow, and then both stand. -/
theorem makeOutputDirs_eq_ok (hs : s.store.top.Plain) (hroot : j.layout.root.isAbsolute = true)
    {a : Unit} (h : j.makeOutputDirs s = (.ok a, t)) :
    t.history = s.history ∧ s.store.top.Grows t.store.top ∧
      t.store.Opens j.layout.rawModulesDir ∧ t.store.Opens j.layout.releaseDir := by
  obtain ⟨_, u, hraw, hrelease⟩ := bind_eq_ok.1 h
  obtain ⟨hraw, hhistory⟩ := ofWork_eq_ok hraw
  obtain ⟨hrelease, hhistory'⟩ := ofWork_eq_ok hrelease
  rw [ofFiles_eq_ok] at hraw hrelease
  have hgrows := Files.makeDirs_grows hs j.layout.rawModulesDir.bytes
  rw [hraw] at hgrows
  have hgrows' := Files.makeDirs_grows hgrows.plain j.layout.releaseDir.bytes
  rw [hrelease] at hgrows'
  exact ⟨hhistory'.trans hhistory, hgrows.trans hgrows',
    (Files.opens_of_makeDirs Layout.isName_rawModules hs hroot hraw).mono hgrows'.keepsDirs,
    Files.opens_of_makeDirs Layout.isName_release hgrows.plain hroot hrelease⟩

/-- The working directory that was just made, in a checkout that is ready for it. -/
theorem prepared_of_makeDir (hs : s.store.top.Plain) (hraw : s.store.Opens j.layout.rawModulesDir)
    (hrelease : s.store.Opens j.layout.releaseDir) (hroot : j.layout.root.isAbsolute = true)
    {u : Store} (h : Files.makeDir j.layout.workDir.bytes s.store = (.ok (), u)) :
    j.layout.Ready s.store ∧ j.layout.Prepared s.store u ∧
      s.store.top.ChangesIn (j.layout.workDir.place <+: ·) u.top := by
  have hname := Layout.isName_work j.layout.version
  have hplace := Layout.place_workDir (l := j.layout)
  obtain ⟨fault, hfault⟩ | ⟨hnames, hnone, hmade⟩ :=
    Files.makeDir_cases hs.linkFree hroot hname (s := s.store)
  · rw [Layout.workDir, hfault] at h
    cases (outcome_inj.1 h).1
  · rw [Layout.workDir, hmade] at h
    obtain ⟨-, rfl⟩ := outcome_inj.1 h
    have hchanges := ChangesIn.put hs j.layout.root.place hname .emptyDir
    have hfree : s.store.top.look (j.layout.root.place ++
        [Bytes.ofString ("tmp-" ++ j.layout.version.text)]) ≠ some .dir := by
      rw [look_eq_none.2 hnone]
      simp
    refine ⟨⟨hnames, ?_, hraw, hrelease⟩, ⟨hchanges.plain, KeepsDirs.put hfree _, ?_⟩, ?_⟩
    · rw [hplace, look_eq_none.2 hnone]
    · rw [hplace, Store.top_put, look_put hnames.opens.look_place, look_nil]
      rfl
    · rw [hplace]
      exact hchanges

end Job

/-! ### After the working directory -/

namespace Layout

/-- The working directory was removed, and nothing else changed. -/
structure Cleared (l : Layout) (base s t : Store) : Prop where
  changes : s.top.ChangesIn (l.workDir.place <+: ·) t.top
  keeps : base.top.KeepsDirs t.top
  gone : t.top.look l.workDir.place = none

variable {l : Layout} {base built s t : Store}

/-- Removing the working directory leaves everything that stood before it was made. -/
theorem Prepared.cleared (hbase : l.Ready base) (h : l.Prepared base s)
    (hremove : Files.removeTree l.workDir.bytes s = (.ok (), t)) : l.Cleared base s t := by
  have hname := isName_work l.version
  have hplace := place_workDir (l := l)
  have hnames := hbase.names.mono h.keeps
  have hemptied : (s.put l.root.place (Bytes.ofString ("tmp-" ++ l.version.text)) .emptyDir).Opens
      l.root := by
    refine hbase.names.opens.mono (h.keeps.of_changesIn
      (ChangesIn.put h.plain l.root.place hname .emptyDir) fun p hp => ?_)
    rw [← hplace]
    exact hbase.not_isPrefix hp
  rw [workDir, Files.removeTree_of_finds hname hnames.finds hnames.short (by rw [← hplace, h.stands])
    hemptied.reaches] at hremove
  obtain ⟨-, rfl⟩ := outcome_inj.1 hremove
  have hdropped := ChangesIn.drop h.plain l.root.place (Bytes.ofString ("tmp-" ++ l.version.text))
  rw [← hplace] at hdropped
  refine ⟨hdropped, h.keeps.of_changesIn hdropped fun p hp => hbase.not_isPrefix hp, ?_⟩
  rw [hplace]
  exact look_drop _ _ _ []

namespace Cleared

variable (hbase : l.Ready base) (h : l.Cleared base s t)

include hbase h

theorem hasEntry_workDir : t.hasEntry l.workDir.bytes = false := by
  rw [← Bool.not_eq_true, workDir, Store.hasEntry_div (isName_work l.version) h.changes.plain.linkFree
    hbase.names.opens.absolute, ← place_workDir, h.gone]
  simp

/-- The archive is found by its path. -/
theorem archive {tree : Node} (harchived : Job.Archived l tree built s) : ∃ members executable,
    t.nodeAt false l.archivePath.bytes = .ok (.file (.archive .zip members) executable) ∧
      Archive.unpack members = .dir [(Bytes.ofString l.archiveRootName, tree.withoutModes)] := by
  obtain ⟨members, executable, hfound, hunpack⟩ := harchived.found
  have hnames : t.Names l.rawModulesDir l.archiveFileName :=
    ⟨hbase.rawModules.mono h.keeps, harchived.fits, harchived.short⟩
  refine ⟨members, executable, (Store.nodeAt_div_eq_ok l.isName_archive h.changes.plain.linkFree
    (isAbsolute_rawModulesDir hbase.names.opens.absolute)).2 ⟨hnames, ?_⟩, hunpack⟩
  rw [← place_archivePath, ← look_eq_file, h.changes.look _ not_work_isPrefix_archivePath, hfound]

/-- The distributions are found by their path. -/
theorem dist (hs : s.top.Plain) (hmoved : l.Moved built s) : ∃ entries,
    built.nodeAt false (l.workDir / distName).bytes = .ok (.dir entries) ∧
      t.nodeAt false (l.versionReleaseDir / distName).bytes = .ok (.dir entries) := by
  have hroot := hbase.names.opens.absolute
  obtain ⟨entries, hbuilt, hget⟩ := hmoved.dist
  have hstands : t.top.get? (l.versionReleaseDir.place ++ [Bytes.ofString distName]) =
      some (.dir entries) := by
    rw [← place_dist, h.changes.get?_eq hs, hget]
    intro p hp
    exact not_work_isPrefix (releaseDir_isPrefix_dist.trans hp)
  have habove := look_eq_dir_of_below (look_eq_dir.2 ⟨entries, hstands⟩)
  rw [place_versionReleaseDir] at habove
  have hopens : t.Opens l.versionReleaseDir :=
    (Store.opens_div (isName_version _) (isAbsolute_releaseDir hroot)).2
      ⟨hbase.release.mono h.keeps, length_version_le _, habove⟩
  exact ⟨entries, hbuilt, (Store.nodeAt_div_eq_ok isName_dist h.changes.plain.linkFree
    (isAbsolute_versionReleaseDir hroot)).2 ⟨⟨hopens, hmoved.fits, by decide⟩, hstands⟩⟩

end Cleared

end Layout

namespace Job

variable {j : Job σ} {s t : Session σ}

/-- A release that succeeds has made its four calls and published what they built. -/
theorem release_publishes (he : j.executor.Confined) (hs : s.store.top.Plain)
    (hroot : j.layout.root.isAbsolute = true) {outcome : Outcome}
    (h : j.release s = (.ok outcome, t)) :
    ∃ generated converted source wheel : ToolEvent,
      t.history = s.history ++ [generated, converted, source, wheel] ∧
      [generated, converted, source, wheel].map (·.call) =
        [.generator j.config .release j.layout.version j.sourceDir j.blenderDir j.layout.workDir,
          .readme j.config j.layout.workDir, .setup j.config .sdist j.layout.workDir,
          .setup j.config .bdistWheel j.layout.workDir] ∧
      Publishes j.layout.root j.layout.version j.layout.label outcome s.store t.store generated.after
        wheel.after := by
  obtain ⟨_, s₁, hdirs, hrest⟩ := bind_eq_ok.1 h
  obtain ⟨_, s₂, hfree, hrest⟩ := bind_eq_ok.1 hrest
  obtain ⟨_, s₃, hmake, hrest⟩ := bind_eq_ok.1 hrest
  obtain ⟨_, s₄, hin, hrest⟩ := bind_eq_ok.1 hrest
  obtain ⟨_, s₅, hremove, hend⟩ := bind_eq_ok.1 hrest
  -- the output directories and the working directory
  obtain ⟨hhistory₁, hgrows, hraw, hrelease⟩ := makeOutputDirs_eq_ok hs hroot hdirs
  obtain ⟨hfree, hhistory₂⟩ := ofWork_eq_ok hfree
  obtain ⟨-, hstore₂⟩ := require_eq_ok.1 hfree
  rw [hstore₂] at hgrows hraw hrelease
  obtain ⟨hmade, hhistory₃⟩ := ofWork_eq_ok hmake
  rw [ofFiles_eq_ok] at hmade
  obtain ⟨hready, hprepared, hchanges₃⟩ := prepared_of_makeDir hgrows.plain hraw hrelease hroot hmade
  -- what is built and published
  obtain ⟨rfl, hs₄, hnone, generated, converted, source, wheel, hhistory₄, hcalls, hmoved, tree, htree,
    harchived⟩ := releaseIn_published he hready hprepared hin
  -- the working directory goes
  obtain ⟨hremoved, hhistory₅⟩ := ofWork_eq_ok hremove
  rw [ofFiles_eq_ok] at hremoved
  obtain ⟨_, s₆, hsay, hdone⟩ := bind_eq_ok.1 hend
  obtain ⟨hstore₆, hhistory₆⟩ := Run.progress_eq_ok hsay
  rw [← hstore₆] at hremoved
  have hcleared := hs₄.cleared hready hremoved
  obtain ⟨houtcome, rfl⟩ := outcome_inj.1 hdone
  obtain rfl := Except.ok.inj houtcome
  refine ⟨generated, converted, source, wheel, ?_, hcalls, j.layout.archivePath_eq,
    ⟨tree, htree, harchived.tree_isDir, ?_⟩, rfl, hcleared.dist hready hs₄.plain hmoved, ?_,
    hcleared.hasEntry_workDir hready⟩
  · rw [hhistory₆, hhistory₅, hhistory₄, hhistory₃, hhistory₂, hhistory₁]
  · rw [← Layout.archiveRootName_eq]
    exact hcleared.archive hready harchived
  · -- nothing stood where the distributions are: directories were made, and the working directory
    show s.store.hasEntry (j.layout.versionReleaseDir / Layout.distName).bytes = false
    rw [← Bool.not_eq_true, Store.hasEntry_div Layout.isName_dist hs.linkFree
      (Layout.isAbsolute_versionReleaseDir hroot), ← Layout.place_dist]
    rintro ⟨-, hsome⟩
    obtain ⟨seen, hseen⟩ := Option.isSome_iff_exists.1 hsome
    rw [hchanges₃.look _ (Layout.not_work_isPrefix Layout.releaseDir_isPrefix_dist),
      hgrows.look_eq hseen] at hnone
    cases hnone

end Job

/-- A release that succeeds has made the four calls of its plan, and what it publishes is exactly what
they built. -/
theorem release_publishes_exactly {e : Executor σ} (he : e.Confined) {r : Request}
    (hmode : r.mode = .release) {root : Path} (hroot : root.isAbsolute = true) {label : Label}
    {s t : Session σ} (hs : s.store.top.Plain) {outcome : Outcome}
    (h : package e r root label s = (.ok outcome, t)) :
    ∃ config generated converted source wheel,
      Config.load s.store root = .ok config ∧
      t.history = s.history ++ [generated, converted, source, wheel] ∧
      [generated, converted, source, wheel].map (·.call) = r.plan config root ∧
      Publishes root r.version label outcome s.store t.store generated.after wheel.after := by
  obtain ⟨_, s₁, hfree, hrest⟩ := bind_eq_ok.1 h
  obtain ⟨config, s₂, hload, hrun⟩ := bind_eq_ok.1 hrest
  obtain ⟨hfree, hhistory₁⟩ := ofWork_eq_ok hfree
  obtain ⟨-, hstore₁⟩ := require_eq_ok.1 hfree
  rw [ofStore_eq] at hload
  obtain ⟨hloaded, rfl⟩ := outcome_inj.1 hload
  obtain ⟨_, s₃, hsay, hrelease⟩ := bind_eq_ok.1 hrun
  obtain ⟨hstore₃, hhistory₃⟩ := Run.progress_eq_ok hsay
  rw [← hstore₁] at hloaded hstore₃
  rw [hmode] at hrelease
  rw [← hstore₃] at hs
  obtain ⟨generated, converted, source, wheel, hhistory, hcalls, hpublishes⟩ :=
    Job.release_publishes he hs hroot hrelease
  rw [hstore₃] at hpublishes
  refine ⟨config, generated, converted, source, wheel, hloaded, ?_, ?_, hpublishes⟩
  · rw [hhistory, hhistory₃, hhistory₁]
  · rw [hcalls, Request.plan, hmode]
    rfl

/-! ### A run of one -/

/-- Puts a tree into the directory of every call, as the generated modules and as the distributions. -/
def Executor.putting (tree : Node) : Executor Unit where
  run c tools s :=
    { result := .ok .success
      out := []
      err := []
      tools
      store :=
        match s.placeOf true c.cwd.bytes with
        | .ok w => (s.put w (Bytes.ofString "out") tree).put w (Bytes.ofString "dist") tree
        | .error _ => s }

theorem Executor.confined_putting {tree : Node} (h : tree.Plain) : (Executor.putting tree).Confined := by
  intro c tools s w hs hplace
  have hout := ChangesIn.put hs w Layout.isName_generated h
  have hdist := ChangesIn.put hout.plain w Layout.isName_dist h
  simp only [Executor.putting, hplace]
  exact (hout.mono fun _ => inside_of_entry).trans (hdist.mono fun _ => inside_of_entry)

/-- A checkout with nothing in it but what a run reads, at `/r`. -/
def smallCheckout : Node :=
  ((((emptyDir.put [] (Bytes.ofString "r") emptyDir).put [Bytes.ofString "r"]
    (Bytes.ofString "README.md") (.ofBytes [])).put [Bytes.ofString "r"] (Bytes.ofString "src")
      emptyDir).put [Bytes.ofString "r", Bytes.ofString "src"] (Bytes.ofString "setup.py")
        (.ofBytes [])).put [Bytes.ofString "r", Bytes.ofString "src"] (Bytes.ofString "MANIFEST.in")
          (.ofBytes [])

theorem plain_smallCheckout : smallCheckout.Plain :=
  ((((Plain.emptyDir.put _ (by decide) .emptyDir).put _ (by decide) (.file _ _)).put _ (by decide)
    .emptyDir).put _ (by decide) (.file _ _)).put _ (by decide) (.file _ _)

/-- A module. -/
def smallTree : Node := emptyDir.put [] (Bytes.ofString "bpy.py") (.ofBytes [10])

theorem plain_smallTree : smallTree.Plain := Plain.emptyDir.put [] (by decide) (.file _ _)

/-- A release of the small checkout. -/
def smallRequest : Request := ⟨.release, .v279, ⟨"/s"⟩, ⟨"/b"⟩, true⟩

def smallLabel : Label := ⟨"1", by decide, by decide⟩

theorem release_of_small_checkout :
    (Executor.putting smallTree).Confined ∧ smallCheckout.Plain ∧
      ∃ outcome t config generated converted source wheel,
        package (Executor.putting smallTree) smallRequest ⟨"/r"⟩ smallLabel
          (.start ⟨smallCheckout, []⟩ () ⟨none, []⟩ false) = (.ok outcome, t) ∧
        Config.load ⟨smallCheckout, []⟩ ⟨"/r"⟩ = .ok config ∧
        t.history = [] ++ [generated, converted, source, wheel] ∧
        [generated, converted, source, wheel].map (·.call) = smallRequest.plan config ⟨"/r"⟩ ∧
        Publishes ⟨"/r"⟩ .v279 smallLabel outcome ⟨smallCheckout, []⟩ t.store generated.after
          wheel.after := by
  have hok : (package (Executor.putting smallTree) smallRequest ⟨"/r"⟩ smallLabel
      (.start ⟨smallCheckout, []⟩ () ⟨none, []⟩ false)).1.toOption.isSome = true := by
    decide +kernel
  refine ⟨Executor.confined_putting plain_smallTree, plain_smallCheckout, ?_⟩
  cases hrun : package (Executor.putting smallTree) smallRequest ⟨"/r"⟩ smallLabel
      (.start ⟨smallCheckout, []⟩ () ⟨none, []⟩ false) with
  | mk result t =>
    rw [hrun] at hok
    cases result with
    | error failure => cases hok
    | ok outcome =>
      obtain ⟨config, generated, converted, source, wheel, hload, hhistory, hcalls, hpublishes⟩ :=
        release_publishes_exactly (Executor.confined_putting plain_smallTree) rfl (by decide)
          plain_smallCheckout hrun
      exact ⟨outcome, t, config, generated, converted, source, wheel, rfl, hload, hhistory, hcalls,
        hpublishes⟩

end StubRelease
