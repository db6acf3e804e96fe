/-
# StubRelease.Proofs.Staged -- the archive and the project agree

A run archives the generated modules before it moves them up into the working directory and copies the
packaging metadata there. Main statement: when the setup script is called first, every file of the published
archive stands in the working directory under the same name with the same bytes, and nothing that was generated
is missing, moved or replaced, in either mode and whatever else stands in the tree
(`archive_agrees_with_project`). It holds of every generated name but those that the run writes there itself:
the metadata is copied without looking, so a generated `setup.py` is in the archive and replaced in the project
(`generated_setup_script_is_replaced`).
-/
import StubRelease.Proofs.Imitation
import StubRelease.Proofs.Leftovers
import StubRelease.Proofs.Promotion

namespace StubRelease

open Sequence Node
open Layout (generatedEntry)

variable {σ : Type}

/-! ## The steps between the calls -/

/-- What a run works with when it calls its generator. -/
theorem Job.enter_made {e : Executor σ} {r : Request} {root : Path} {label : Label} {s before : Session σ}
    {j : Job σ} (h : Job.enter e r root label s = (.ok j, before)) :
    ∃ config, Config.load s.store root = .ok config ∧
      j = ⟨e, config, ⟨root, r.version, label⟩, r.sourceDir, r.blenderDir, r.quiet⟩ := by
  obtain ⟨_, s₁, hcheck, h⟩ := bind_eq_ok.1 h
  obtain ⟨config, s₂, hload, h⟩ := bind_eq_ok.1 h
  obtain ⟨_, s₃, -, h⟩ := bind_eq_ok.1 h
  obtain ⟨_, s₄, -, h⟩ := bind_eq_ok.1 h
  have hkept := (require_eq_ok.1 (ofWork_eq_ok hcheck).1).2
  rw [ofStore_eq, ← hkept] at hload
  refine ⟨config, (outcome_inj.1 hload).1, ?_⟩
  cases hmode : r.mode with
  | release =>
    rw [hmode] at h
    obtain ⟨_, s₅, -, h⟩ := bind_eq_ok.1 h
    obtain ⟨_, s₆, -, h⟩ := bind_eq_ok.1 h
    obtain ⟨_, s₇, -, h⟩ := bind_eq_ok.1 h
    exact (Except.ok.inj (outcome_inj.1 h).1).symm
  | develop =>
    rw [hmode] at h
    obtain ⟨_, s₅, -, h⟩ := bind_eq_ok.1 h
    exact (Except.ok.inj (outcome_inj.1 h).1).symm

theorem Job.enter_traced (e : Executor σ) (r : Request) (root : Path) (label : Label) :
    Traced [] (Job.enter e r root label) := by
  refine (Traced.ofWork _).bind fun _ => (Traced.ofStore _).bind fun config => (Traced.progress _ _).bind fun _ =>
    (makeOutputDirs_traced _).bind fun _ => ?_
  cases r.mode with
  | release =>
    exact (Traced.ofWork _).bind fun _ => (Traced.ofFiles _).bind fun _ => (Traced.progress _ _).bind fun _ =>
      Traced.pure _
  | develop => exact (Traced.progress _ _).bind fun _ => Traced.pure _

/-- The commands that a run gives to the setup script. -/
def Mode.setupCommands : Mode → List SetupCommand
  | .release => SetupCommand.forRelease
  | .develop => [.develop]

/-- A run from its last call to its end. -/
def Job.finish (j : Job σ) (mode : Mode) (w : Path) : Run σ Outcome :=
  match mode with
  | .release => do
    let dist ← Run.ofWork (Staging.publishDist w j.layout.versionReleaseDir)
    Run.ofFiles (Files.removeTree w.bytes)
    j.progress (Progress.released j.layout.version dist)
    pure ⟨j.layout.archivePath, some dist⟩
  | .develop => do
    j.progress (Progress.installed j.layout.version w)
    pure ⟨j.layout.archivePath, none⟩

theorem Job.leave_eq (j : Job σ) (mode : Mode) (w : Path) : j.leave mode w = (do
    let _ ← Run.ofWork (Staging.promoteGenerated j.executor.order w)
    Run.ofWork (Staging.copyMetadata w j.config)
    j.progress Progress.converting
    Run.ofWork (Work.require (·.isFile j.config.readme.bytes) (.missingInput j.config.readme))
    Run.callChecked j.executor (.readme j.config w)
    j.runSetup w mode.setupCommands
    j.finish mode w) := by
  cases mode with
  | release => simp only [Job.leave, Job.finish, Staging.convertReadme, bind_assoc, Mode.setupCommands]
  | develop => simp only [Job.leave, Job.finish, Staging.convertReadme, bind_assoc, Mode.setupCommands]

theorem Job.finish_traced (j : Job σ) (mode : Mode) (w : Path) : Traced [] (j.finish mode w) := by
  cases mode with
  | release =>
    exact (Traced.ofWork _).bind fun _ => (Traced.ofFiles _).bind fun _ => (Traced.progress _ _).bind fun _ =>
      Traced.pure _
  | develop => exact (Traced.progress _ _).bind fun _ => Traced.pure _

theorem Job.leave_traced (j : Job σ) (mode : Mode) (w : Path) :
    Traced (.readme j.config w :: ((mode.setupCommands.map fun command => .setup j.config command w) ++ []))
      (j.leave mode w) := by
  rw [j.leave_eq]
  exact (Traced.ofWork _).bind fun _ => (Traced.ofWork _).bind fun _ => (Traced.progress _ _).bind fun _ =>
    (Traced.ofWork _).bind fun _ => (Traced.callChecked _ _).bind fun _ => (j.runSetup_traced w _).bind fun _ =>
      j.finish_traced mode w

/-- The first call that a sequence of setup commands makes is the one of its first command. -/
theorem Job.runSetup_calls {α : Type} {j : Job σ} {w : Path} {command : SetupCommand} {rest : List SetupCommand}
    {f : Unit → Run σ α} (hf : Traced [] (f ())) {s t : Session σ} {result : Except Failure α}
    {event : ToolEvent} {later : List ToolEvent} (h : (j.runSetup w (command :: rest) >>= f) s = (result, t))
    (hhistory : t.history = s.history ++ event :: later) :
    event.call = .setup j.config command w ∧
      ∃ tools, event.after = (j.executor.run event.call tools s.store).store := by
  rw [Job.runSetup, bind_assoc] at h
  obtain ⟨_, u, hsay, hu, h⟩ := Traced.silent_bind (Traced.progress _ _) h hhistory
  rw [← hu] at hhistory
  rw [bind_assoc] at h
  obtain ⟨hcall, hafter, -⟩ := Traced.call_bind ((j.runSetup_traced w rest).bind fun _ => hf) h hhistory
  refine ⟨hcall, u.tools, ?_⟩
  rw [hafter, hcall, (Run.progress_eq_ok hsay).1]

/-- What a run that calls its setup script has done since its generator's call: it has archived, promoted,
copied the metadata and converted the readme. -/
theorem package_staged {e : Executor σ} {r : Request} {root : Path} {label : Label} {s t : Session σ}
    {result : Except Failure Outcome} {generated converted setup : ToolEvent} {later : List ToolEvent}
    (h : package e r root label s = (result, t))
    (hhistory : t.history = s.history ++ generated :: converted :: setup :: later) :
    ∃ (config : Config) (g a : Session σ) (n : Nat) (m k : Store),
      let j : Job σ := ⟨e, config, ⟨root, r.version, label⟩, r.sourceDir, r.blenderDir, r.quiet⟩
      Config.load s.store root = .ok config ∧
      g.store = generated.after ∧
      j.archiveGenerated (r.workDir root) g = (.ok (), a) ∧
      Staging.promoteGenerated e.order (r.workDir root) a.store = (.ok n, m) ∧
      Staging.copyMetadata (r.workDir root) config m = (.ok (), k) ∧
      (∃ tools, converted.after = (e.run (.readme config (r.workDir root)) tools k).store) ∧
      ∃ command tools, setup.call = .setup config command (r.workDir root) ∧
        setup.after = (e.run setup.call tools converted.after).store := by
  rw [package_eq] at h
  obtain ⟨j, before, henter, hbefore, h⟩ := Traced.silent_bind (Job.enter_traced e r root label) h hhistory
  obtain ⟨config, hload, rfl⟩ := Job.enter_made henter
  rw [← hbefore] at hhistory
  obtain ⟨-, -, hnone | ⟨g, hg, hstore, h⟩⟩ := Traced.call_bind ((Traced.progress _ _).bind fun _ =>
    (Job.archiveGenerated_traced _ _).bind fun _ => Job.leave_traced _ _ _) h hhistory
  · cases hnone
  rw [List.append_cons, ← hg] at hhistory
  obtain ⟨_, g', hsay, hg', h⟩ := Traced.silent_bind (Traced.progress _ _) h hhistory
  rw [← hg'] at hhistory
  obtain ⟨_, a, harchive, ha, h⟩ := Traced.silent_bind (Job.archiveGenerated_traced _ _) h hhistory
  rw [← ha] at hhistory
  rw [Job.leave_eq] at h
  obtain ⟨n, b, hpromote, hb, h⟩ := Traced.silent_bind (Traced.ofWork _) h hhistory
  rw [← hb] at hhistory
  obtain ⟨_, k, hcopy, hk, h⟩ := Traced.silent_bind (Traced.ofWork _) h hhistory
  rw [← hk] at hhistory
  obtain ⟨_, k₁, hsay', hk₁, h⟩ := Traced.silent_bind (Traced.progress _ _) h hhistory
  rw [← hk₁] at hhistory
  obtain ⟨_, k₂, hcheck, hk₂, h⟩ := Traced.silent_bind (Traced.ofWork _) h hhistory
  rw [← hk₂] at hhistory
  obtain ⟨-, hconverted, hnone | ⟨c, hc, hcstore, h⟩⟩ := Traced.call_bind ((Job.runSetup_traced _ _ _).bind
    fun _ => Job.finish_traced _ _ _) h hhistory
  · cases hnone
  rw [List.append_cons, ← hc] at hhistory
  have hkept : k₂.store = k.store := by
    obtain ⟨hrequire, -⟩ := ofWork_eq_ok hcheck
    rw [← (Run.progress_eq_ok hsay').1]
    exact (require_eq_ok.1 hrequire).2.symm
  obtain ⟨command, rest, hcommands⟩ : ∃ command rest, r.mode.setupCommands = command :: rest := by
    cases r.mode with
    | release => exact ⟨_, _, rfl⟩
    | develop => exact ⟨_, _, rfl⟩
  rw [hcommands] at h
  obtain ⟨hsetup, tools, hafter⟩ := Job.runSetup_calls (Job.finish_traced _ _ _) h hhistory
  refine ⟨config, g', a, n, b.store, k.store, hload, (Run.progress_eq_ok hsay).1.trans hstore, harchive,
    (ofWork_eq_ok hpromote).1, (ofWork_eq_ok hcopy).1, ⟨k₂.tools, hkept ▸ hconverted⟩, command, tools, hsetup, ?_⟩
  rw [hafter, hcstore]

/-! ## Archiving -/

namespace Store

/-- The directory that a path of a directory leads to. -/
theorem reaches_of_placeOf {s : Store} {p : Path} {text : String} {d : List Name}
    (hname : IsName (Bytes.ofString text)) (h : s.placeOf true (p / text).bytes = .ok d)
    (hdir : s.top.look d = some .dir) :
    (0 : UInt8) ∉ p.bytes ∧ (p / text).bytes.length < Route.lengthLimit ∧ s.Reaches (p / text) d := by
  obtain ⟨entries, hentries⟩ := look_eq_dir.1 hdir
  obtain ⟨hnul, hfits, e, he⟩ := reaches_of_isDir (s := s) (p := p) hname (by
    rw [isDir, nodeAt, h]
    simp [hentries, Node.isDir])
  have hplace := (placeOf_div hname hnul hfits he).symm.trans h
  exact ⟨hnul, hfits, Except.ok.inj hplace ▸ he⟩

end Store

/-- An archive of a tree without links holds the files of the tree. -/
theorem Archive.holds_iff_of_linkFree {s : Store} {name path m : Bytes} {n : Node} {content : Content}
    (hn : n.LinkFree) : Holds s name path n m content ↔
      ∃ (rest : List Name) (executable : Bool), m = rest.foldl memberName name ∧
        n.look rest = some (.file content executable) := by
  constructor
  · rintro ⟨rest, seen, rfl, hseen, hpacks⟩
    cases seen with
    | file old executable =>
      obtain rfl := hpacks
      exact ⟨rest, executable, rfl, hseen⟩
    | link target => exact absurd hseen (hn rest target)
    | dir => exact hpacks.elim
  · rintro ⟨rest, executable, rfl, hseen⟩
    exact ⟨rest, _, rfl, hseen, rfl⟩

/-- The files of an archive, as a tree has them. -/
def Layout.Packs (l : Layout) (tree : Node) (members : List Member) : Prop :=
  ∀ m content, Member.file m content ∈ members ↔ ∃ (rest : List Name) (executable : Bool),
    m = rest.foldl Archive.memberName (Bytes.ofString l.archiveRootName) ∧
      tree.look rest = some (.file content executable)

/-- Between `s` and `t` an archive of the generated tree was put into the directory at `q`, by way of a draft in
the directory at `d`. -/
structure Filed (l : Layout) (d q : List Name) (tree : Node) (members : List Member) (s t : Store) : Prop where
  cwd : t.cwd = s.cwd
  packs : l.Packs tree members
  draft : LeadsNowhere (s.top.look (d ++ [Bytes.ofString l.archiveFileName]))
  archive : ∃ executable, t.top.look (q ++ [Bytes.ofString l.archiveFileName]) =
    some (.file (.archive .zip members) executable)
  elsewhere : ∀ p, p ≠ d ++ [Bytes.ofString l.archiveFileName] → p ≠ q ++ [Bytes.ofString l.archiveFileName] →
    t.top.look p = s.top.look p
  tree : t.top.get? (d ++ [generatedEntry]) = some tree

/-- Archiving does not make a path lead elsewhere. -/
theorem Filed.accords {l : Layout} {d q : List Name} {tree : Node} {members : List Member} {s t u : Store}
    (h : Filed l d q tree members s t) (hafter : t.top.Accords u.top)
    (hstays : u.top.look (q ++ [Bytes.ofString l.archiveFileName]) =
      t.top.look (q ++ [Bytes.ofString l.archiveFileName])) : s.top.Accords u.top := by
  refine hafter.of_look fun p => ?_
  by_cases hq : p = q ++ [Bytes.ofString l.archiveFileName]
  · obtain ⟨executable, harchive⟩ := h.archive
    rw [hq, hstays, harchive]
    exact .inr (.inr (.inr ⟨_, executable, rfl⟩))
  · by_cases hd : p = d ++ [Bytes.ofString l.archiveFileName]
    · exact .inr (.inl (hd ▸ h.draft))
    · exact .inl (h.elsewhere p hd hq).symm

/-- A draft of an archive is moved to its place. -/
theorem Files.rename_draft {l : Layout} {w : Path} {d q : List Name} {s t : Store} {content : Content}
    {executable : Bool} (hw : s.Reaches w d) (hq : s.Finds l.rawModulesDir l.archiveFileName q)
    (hfound : s.top.get? (d ++ [Bytes.ofString l.archiveFileName]) = some (.file content executable))
    (h : rename (l.draftArchivePath w).bytes l.archivePath.bytes s = (.ok (), t)) :
    t.cwd = s.cwd ∧
      t.top.look (q ++ [Bytes.ofString l.archiveFileName]) = some (.file content executable) ∧
      (∀ p, p ≠ d ++ [Bytes.ofString l.archiveFileName] → p ≠ q ++ [Bytes.ofString l.archiveFileName] →
        t.top.look p = s.top.look p) ∧
      ∀ name ≠ Bytes.ofString l.archiveFileName, ¬ d ++ [name] <+: q →
        t.top.get? (d ++ [name]) = s.top.get? (d ++ [name]) := by
  have hfile := l.isName_archive
  have hseen := look_eq_file.2 hfound
  obtain ⟨fault, hfault⟩ | ⟨q', hdest, -, -, ⟨d', hsource, heq⟩, hsame⟩ | ⟨d', q', node, hcarries⟩ :=
    rename_finds (s := s) (q := w) (p := l.rawModulesDir) hfile hfile
  · rw [Layout.draftArchivePath, Layout.archivePath, hfault] at h
    cases (outcome_inj.1 h).1
  · obtain rfl := hsource.reaches.unique hw
    obtain rfl := hdest.reaches.unique hq.reaches
    rw [Layout.draftArchivePath, Layout.archivePath, hsame] at h
    obtain ⟨-, rfl⟩ := outcome_inj.1 h
    exact ⟨rfl, heq ▸ hseen, fun _ _ _ => rfl, fun _ _ _ => rfl⟩
  · obtain rfl := hcarries.source.reaches.unique hw
    obtain rfl := hcarries.dest.reaches.unique hq.reaches
    obtain rfl := Option.some.inj (hcarries.found.symm.trans hfound)
    rw [Layout.draftArchivePath, Layout.archivePath, rename_of_carries hfile hfile hcarries] at h
    obtain ⟨-, rfl⟩ := outcome_inj.1 h
    have hnot : s.top.look (d' ++ [Bytes.ofString l.archiveFileName]) ≠ some .dir := by simp [hseen]
    have hdir : (s.top.drop d' (Bytes.ofString l.archiveFileName)).look q' = some .dir := by
      rw [look_drop_of_not_dir hnot, hq.reaches.dir]
      intro heq
      exact hnot (heq ▸ hq.reaches.dir)
    have hold : (s.top.drop d' (Bytes.ofString l.archiveFileName)).look
        (q' ++ [Bytes.ofString l.archiveFileName]) ≠ some .dir := by
      rw [look_drop_of_not_dir hnot hcarries.ne.symm]
      exact (mayReplace_eq_ok_of_not_dir rfl).1 hcarries.mayReplace
    refine ⟨rfl, look_eq_file.2 (get?_put_self hdir _ _), fun p hd hq => ?_, fun name hname hapart => ?_⟩
    · rw [Store.top_put, Store.top_drop, look_put_file hdir hold _ _ hq, look_drop_of_not_dir hnot hd]
    · have hat : ¬ q' ++ [Bytes.ofString l.archiveFileName] <+: d' ++ [name] := by
        intro hat
        obtain heq | hup := List.prefix_concat_iff.1 hat
        · exact hname (List.append_inj_right' heq rfl |> List.singleton_inj.1).symm
        · exact hcarries.up hup
      rw [Store.top_put, Store.top_drop, get?_put_elsewhere _ _ hapart hat,
        get?_drop_elsewhere _ (not_entry_isPrefix _ _) (by rwa [entry_isPrefix_iff, eq_comm])]

/-- Archiving that succeeds puts an archive of the generated tree in its place and leaves everything else as it
was, but for a file that the draft was written over. -/
theorem Job.archiveGenerated_files {j : Job σ} {w : Path} {d q : List Name} {tree : Node} {s t : Session σ}
    {a : Unit} (hw : s.store.Reaches w d)
    (hq : s.store.place j.layout.archivePath.bytes =
      .ok ⟨q, .name (Bytes.ofString j.layout.archiveFileName), false⟩)
    (htree : s.store.top.get? (d ++ [generatedEntry]) = some tree) (hplain : tree.Plain)
    (hlink : ∀ target, s.store.top.look (d ++ [Bytes.ofString j.layout.archiveFileName]) ≠ some (.link target))
    (hapart : ¬ d ++ [generatedEntry] <+: q) (h : j.archiveGenerated w s = (.ok a, t)) :
    (∃ entries, tree = .dir entries) ∧ ∃ members, Filed j.layout d q tree members s.store t.store := by
  obtain ⟨summary, u, hzip, hrename⟩ := bind_eq_ok.1 h
  obtain ⟨hzipped, -⟩ := ofWork_eq_ok hzip
  have hpath := (Archive.zipDirectory_packs hzipped).2.1
  obtain ⟨hnot, entries, executable, hentries, hok, hwritten⟩ := Layout.draft_written hw hlink hzipped
  obtain rfl := Option.some.inj (htree.symm.trans hentries)
  obtain ⟨hmoved, -⟩ := ofWork_eq_ok hrename
  rw [ofFiles_eq_ok, hpath, hwritten] at hmoved
  -- the draft takes no directory and no link away, so both paths lead where they led
  obtain ⟨q', hfinds, heq⟩ := (Store.place_div_eq_ok j.layout.isName_archive).1 hq
  cases heq
  let packed := j.layout.packed (j.layout.drafting s.store d executable) w (.dir entries)
  let drafted := s.store.put d (Bytes.ofString j.layout.archiveFileName) (.file (.archive .zip packed.members) executable)
  have hkeeps : s.store.top.KeepsWays drafted.top := .put hnot hlink _
  have hw' : drafted.Reaches w d := hw.keeps hkeeps rfl
  have hfinds' : drafted.Finds j.layout.rawModulesDir j.layout.archiveFileName q := hfinds.keeps hkeeps rfl
  obtain ⟨hcwd, harchive, helsewhere, hsame⟩ := Files.rename_draft hw' hfinds' (get?_put_self hw.dir _ _) hmoved
  have hdiffer : Bytes.ofString j.layout.archiveFileName ≠ generatedEntry := j.layout.archive_ne (by decide)
  refine ⟨⟨entries, rfl⟩, packed.members, hcwd, fun m content => ?_,
    leadsNowhere_of_not hnot hlink, ⟨executable, harchive⟩, fun p hd hq => ?_, ?_⟩
  · exact (Archive.file_mem_zipNode hplain.wellFormed hok).trans
      (Archive.holds_iff_of_linkFree hplain.linkFree)
  · rw [helsewhere p hd hq]
    exact look_put_file hw.dir hnot _ _ hd
  · rw [hsame _ hdiffer.symm hapart, ← htree]
    exact get?_put_elsewhere _ _ (not_entry_isPrefix _ _) (by rwa [entry_isPrefix_iff])

/-! ## The project -/

/-- The names under which a run itself puts files beside the generated modules. -/
def Staging.ownNames : List String := Call.convertedReadme :: Config.metadataNames

/-- Those names, as entries of a directory. -/
def Staging.ownEntries : List Name := ownNames.map Bytes.ofString

/-- The converter of a configuration writes the readme into the directory it is called in and does nothing else,
unless a link leads it elsewhere. -/
def Executor.ConvertsReadme (e : Executor σ) (c : Config) : Prop :=
  ∀ (w : Path) (tools : σ) (s : Store) (d : List Name), s.Reaches w d →
    (∀ target, s.top.look (d ++ [Bytes.ofString Call.convertedReadme]) ≠ some (.link target)) →
    s.WritesFiles (· = d ++ [Bytes.ofString Call.convertedReadme]) (e.run (.readme c w) tools s).store

open Staging (ownNames ownEntries)

/-- The published archive at `q` and the project at `d`, where the path `w` leads, are both the generated tree:
the archive holds the files of the tree, the project has every entry of it in its place, and `out` is gone. -/
structure ProjectAgrees (l : Layout) (w : Path) (d q : List Name) (tree : Node) (s : Store)
    (members : List Member) : Prop where
  archive : ∃ executable, s.top.look (q ++ [Bytes.ofString l.archiveFileName]) =
    some (.file (.archive .zip members) executable)
  path : ∀ found, s.place l.archivePath.bytes = .ok found →
    found = ⟨q, .name (Bytes.ofString l.archiveFileName), false⟩
  packs : l.Packs tree members
  work : s.placeOf true w.bytes = .ok d
  stands : ∀ name rest, name ∉ ownEntries → tree.look [name] ≠ none →
    s.top.look (d ++ name :: rest) = tree.look (name :: rest)
  cleared : ∀ rest, s.top.look (d ++ generatedEntry :: rest) = none
  agrees : ∀ m content, Member.file m content ∈ members → ∃ name rest,
    m = (name :: rest).foldl Archive.memberName (Bytes.ofString l.archiveRootName) ∧
      (name ∉ ownEntries → ∃ executable, s.top.look (d ++ name :: rest) = some (.file content executable))

theorem Request.workDir_eq (r : Request) (root : Path) :
    ∃ text, IsName (Bytes.ofString text) ∧ r.workDir root = root / text := by
  rw [workDir]
  cases r.mode with
  | release => exact ⟨_, Layout.isName_work r.version, rfl⟩
  | develop => exact ⟨_, Layout.isName_release, rfl⟩

theorem Staging.generated_notMem : generatedEntry ∉ ownEntries := by decide

/-- No archive has a name that a run puts files under. -/
theorem Staging.archive_notMem (l : Layout) : Bytes.ofString l.archiveFileName ∉ ownEntries := by
  have hshort : ∀ name ∈ ownEntries, name.length ≤ 22 := by decide
  exact fun hmem => l.archive_ne (hshort _ hmem) rfl

/-- The last names of two places differ. -/
theorem concat_ne {p q : List Name} {a b : Name} (h : a ≠ b) : p ++ [a] ≠ q ++ [b] := by
  intro heq
  exact h (List.singleton_inj.1 (List.append_inj_right' heq rfl))

/-- After a promotion no link has a name that the run puts a file under. -/
theorem Filed.not_link {l : Layout} {d q : List Name} {tree : Node} {members : List Member} {s a m : Store}
    (hfiled : Filed l d q tree members s a) (hraised : Staging.Raised d tree a m) (hfree : tree.LinkFree)
    (hlinks : ∀ text ∈ ownNames, ∀ target, s.top.look (d ++ [Bytes.ofString text]) ≠ some (.link target))
    {text : String} (htext : text ∈ ownNames) (target : Bytes) :
    m.top.look (d ++ [Bytes.ofString text]) ≠ some (.link target) := by
  have hown : Bytes.ofString text ∈ ownEntries := List.mem_map_of_mem htext
  have hgenerated : Bytes.ofString text ≠ generatedEntry := fun heq =>
    Staging.generated_notMem (heq ▸ hown)
  have harchive : Bytes.ofString text ≠ Bytes.ofString l.archiveFileName := fun heq =>
    Staging.archive_notMem l (heq ▸ hown)
  by_cases hmade : tree.look [Bytes.ofString text] = none
  · rw [hraised.elsewhere _ (fun _ => below_ne hgenerated _ _) fun x rest hx => below_ne ?_ _ _,
      hfiled.elsewhere _ (concat_ne harchive) (concat_ne harchive)]
    · exact hlinks text htext target
    · rintro rfl
      exact hx hmade
  · rw [hraised.moved _ [] hmade]
    exact hfree _ target

/-- The archive stays where it is while the generated tree is moved up. -/
theorem Filed.archive_stays {l : Layout} {d q : List Name} {tree : Node} {members : List Member} {s a m : Store}
    (hfiled : Filed l d q tree members s a) (hraised : Staging.Raised d tree a m)
    (hapart : ¬ d ++ [generatedEntry] <+: q) :
    m.top.look (q ++ [Bytes.ofString l.archiveFileName]) =
      a.top.look (q ++ [Bytes.ofString l.archiveFileName]) := by
  obtain ⟨executable, harchive⟩ := hfiled.archive
  refine hraised.elsewhere _ (fun rest heq => ?_) fun x rest hx heq => ?_
  · obtain hlast | hbelow := List.prefix_concat_iff.1 (⟨rest, by simp [heq]⟩ :
      d ++ [generatedEntry] <+: q ++ [Bytes.ofString l.archiveFileName])
    · exact concat_ne (l.archive_ne (by decide)).symm hlast
    · exact hapart hbelow
  · -- nothing stood, or a link, where an entry was moved, so the archive was neither there nor below
    rw [heq] at harchive
    cases rest with
    | nil => obtain hnone | ⟨target, hlink⟩ := hraised.free x hx <;> simp_all
    | cons first rest =>
      rw [List.append_cons] at harchive
      have hdir := look_eq_dir_of_below harchive
      obtain hnone | ⟨target, hlink⟩ := hraised.free x hx <;> simp_all

/-- An archive that was put in its place, the generated tree moved up, and files written under the run's own
names: the archive and the project agree. -/
theorem Filed.project {l : Layout} {w : Path} {d q : List Name} {tree : Node} {members : List Member}
    {s a m c : Store} (hfiled : Filed l d q tree members s a) (hraised : Staging.Raised d tree a m)
    (hapart : ¬ d ++ [generatedEntry] <+: q) (hdir : tree.sight = .dir)
    (hq : s.place l.archivePath.bytes = .ok ⟨q, .name (Bytes.ofString l.archiveFileName), false⟩)
    (hwrites : m.WritesFiles (fun p => ∃ text ∈ ownNames, p = d ++ [Bytes.ofString text]) c)
    (hwork : c.placeOf true w.bytes = .ok d) : ProjectAgrees l w d q tree c members := by
  have hkept {name : Name} (hname : name ∉ ownEntries) (rest : List Name) :
      c.top.look (d ++ name :: rest) = m.top.look (d ++ name :: rest) := by
    refine hwrites.elsewhere ?_
    rintro ⟨text, htext, heq⟩
    have hne : name ≠ Bytes.ofString text := fun heq => hname (heq ▸ List.mem_map_of_mem htext)
    exact below_ne hne rest [] heq
  have harchive : c.top.look (q ++ [Bytes.ofString l.archiveFileName]) =
      a.top.look (q ++ [Bytes.ofString l.archiveFileName]) := by
    rw [hwrites.elsewhere, hfiled.archive_stays hraised hapart]
    rintro ⟨text, htext, heq⟩
    refine concat_ne (fun heq => Staging.archive_notMem l ?_) heq
    exact heq ▸ List.mem_map_of_mem htext
  have hstands (name : Name) (rest : List Name) (hname : name ∉ ownEntries) (hmade : tree.look [name] ≠ none) :
      c.top.look (d ++ name :: rest) = tree.look (name :: rest) := by
    rw [hkept hname, hraised.moved name rest hmade]
  refine ⟨?_, fun found hfound => ?_, hfiled.packs, hwork, hstands, fun rest => ?_, fun m content hmem => ?_⟩
  · rw [harchive]
    exact hfiled.archive
  · obtain ⟨q', hfinds', rfl⟩ := (Store.place_div_eq_ok l.isName_archive).1 hfound
    obtain ⟨q'', hfinds, heq⟩ := (Store.place_div_eq_ok l.isName_archive).1 hq
    cases heq
    have haccords := hfiled.accords (hwrites.accords hraised.accords) harchive
    rw [hfinds.reaches.accords hfinds'.reaches haccords (by
      rw [hwrites.cwd, hraised.cwd, hfiled.cwd])]
  · rw [hkept Staging.generated_notMem, hraised.cleared]
  · obtain ⟨rest, executable, rfl, hseen⟩ := (hfiled.packs m content).1 hmem
    cases rest with
    | nil =>
      rw [look_nil, hdir] at hseen
      cases hseen
    | cons name rest =>
      refine ⟨name, rest, rfl, fun hname => ⟨executable, ?_⟩⟩
      rw [hstands name rest hname, hseen]
      cases rest with
      | nil => simp [hseen]
      | cons first rest =>
        have habove : tree.look [name] = some .dir :=
          look_eq_dir_of_below (show tree.look ([name] ++ first :: rest) = _ from hseen)
        simp [habove]

/-- When a run calls its setup script first, the archive it has published and the project it has laid out hold
the same generated files, and no entry of the generated tree is missing, moved or replaced but under the names
that the run itself puts files under. This is so in both modes, whatever else stands in the tree, if the
generated tree is without links, if no link stands under a name that the run writes in the working directory,
and if the archives are not kept inside the generated tree. -/
theorem archive_agrees_with_project {e : Executor σ} {r : Request} {root : Path} {label : Label} {s t : Session σ}
    {result : Except Failure Outcome} {generated converted setup : ToolEvent} {later : List ToolEvent}
    (he : ∀ c, Config.load s.store root = .ok c → e.ConvertsReadme c)
    (h : package e r root label s = (result, t))
    (hhistory : t.history = s.history ++ generated :: converted :: setup :: later) {d q : List Name} {tree : Node}
    (hd : generated.after.placeOf true (r.workDir root).bytes = .ok d)
    (hq : generated.after.place (⟨root, r.version, label⟩ : Layout).archivePath.bytes =
      .ok ⟨q, .name (Bytes.ofString (⟨root, r.version, label⟩ : Layout).archiveFileName), false⟩)
    (htree : generated.after.top.get? (d ++ [generatedEntry]) = some tree) (hplain : tree.Plain)
    (hlinks : ∀ text ∈ (⟨root, r.version, label⟩ : Layout).archiveFileName :: ownNames, ∀ target,
      generated.after.top.look (d ++ [Bytes.ofString text]) ≠ some (.link target))
    (hapart : ¬ d ++ [generatedEntry] <+: q) :
    (∃ members, ProjectAgrees ⟨root, r.version, label⟩ (r.workDir root) d q tree converted.after members) ∧
      ∃ config command tools, setup.call = .setup config command (r.workDir root) ∧
        setup.after = (e.run setup.call tools converted.after).store := by
  obtain ⟨config, g, a, n, m, k, hload, hg, harchive, hpromote, hcopy, ⟨tools, hconverted⟩, command, tools', hcall,
    hafter⟩ := package_staged h hhistory
  refine ⟨?_, config, command, tools', hcall, hafter⟩
  obtain ⟨text, hname, hw⟩ := r.workDir_eq root
  have hdir : generated.after.top.look d = some .dir := look_eq_dir_of_below (look_of_get? htree)
  obtain ⟨hnul, hfits, hreaches⟩ := Store.reaches_of_placeOf hname (hw ▸ hd) hdir
  rw [← hw, ← hg] at hreaches
  rw [← hg] at hq htree hlinks
  let j : Job σ := ⟨e, config, ⟨root, r.version, label⟩, r.sourceDir, r.blenderDir, r.quiet⟩
  obtain ⟨⟨entries, rfl⟩, members, hfiled⟩ := Job.archiveGenerated_files (j := j) hreaches hq htree hplain
    (hlinks _ List.mem_cons_self) hapart harchive
  -- the generated tree is moved up
  have haccords := hfiled.accords (.refl a.store.top) rfl
  obtain ⟨hreaches', hraised⟩ := Staging.promoteGenerated_raises hreaches haccords hfiled.cwd hfiled.tree hplain
    hpromote
  have hnolink {text : String} (htext : text ∈ ownNames) (target : Bytes) :=
    hfiled.not_link hraised hplain.linkFree (fun text htext => hlinks text (List.mem_cons_of_mem _ htext)) htext
      target
  -- the metadata is copied to where the working directory's path still leads
  obtain ⟨hleads, hcopied⟩ := Staging.copyEach_writes hreaches' hraised.accords hraised.cwd
    Staging.isName_metadata (fun name hmem => hnolink (List.mem_cons_of_mem _ hmem)) hcopy
  have hcopied := hcopied.mono (Q := fun p => ∃ text ∈ ownNames, p = d ++ [Bytes.ofString text])
    fun p ⟨name, hmem, hp⟩ => ⟨name, List.mem_cons_of_mem _ hmem, hp⟩
  have hownlinks (p : List Name) (hp : ∃ text ∈ ownNames, p = d ++ [Bytes.ofString text]) (target : Bytes) :
      m.top.look p ≠ some (.link target) := by
    obtain ⟨text, htext, rfl⟩ := hp
    exact hnolink htext target
  have hk : k.Reaches (r.workDir root) d := (hleads (by decide)).keeps (hcopied.keepsWays hownlinks) hcopied.cwd
  -- the readme is converted there
  have hwrites := he config hload (r.workDir root) tools k d hk fun target =>
    hcopied.not_link (hnolink List.mem_cons_self) target
  rw [← hconverted] at hwrites
  have hstaged := hcopied.trans (hwrites.mono fun p hp => ⟨_, List.mem_cons_self, hp⟩)
  have hc : converted.after.Reaches (r.workDir root) d :=
    (hleads (by decide)).keeps (hstaged.keepsWays hownlinks) hstaged.cwd
  rw [hw] at hc
  refine ⟨members, hfiled.project hraised hapart rfl hq hstaged ?_⟩
  rw [hw]
  exact Store.placeOf_div hname hnul hfits hc

/-! ### Two releases of the small checkout -/

/-- An imitated call does nothing to the store, or what its arguments ask for. -/
theorem Imitation.executor_store (injection : Option Injection) (order : Listing.Order) (c : Call) (calls : List Call)
    (s : Store) :
    ((executor injection order).run c calls s).store = s ∨
      ((executor injection order).run c calls s).store = (effect c.cwd c.arguments s).2 := by
  simp only [executor]
  split
  · exact .inl rfl
  · refine .inr ?_
    rw [← ofFiles_store (effect c.cwd c.arguments)]
    split <;> simp [*]

/-- The imitated converter writes the readme and nothing else. -/
theorem Imitation.convertsReadme (injection : Option Injection) (order : Listing.Order) (c : Config) :
    (executor injection order).ConvertsReadme c := by
  intro w calls s d hw hlink
  obtain heq | heq := executor_store injection order (.readme c w) calls s
  · rw [heq]
    exact .refl _ s
  · rw [heq, effect_readme]
    exact Files.writeFile_writes (by decide) hw hlink _

/-- Where a release of the small checkout works. -/
def smallWork : List Name := [Bytes.ofString "r", Bytes.ofString "tmp-2.79"]

/-- A release of the small checkout with imitated tools. -/
def smallImitation : Except Failure Outcome × Session (List Call) :=
  package (Imitation.executor none .ascending) smallRequest ⟨"/r"⟩ smallLabel
    (.start ⟨smallCheckout, []⟩ [] ⟨none, []⟩ false)

/-- What the call of a number has left, counted from zero. -/
def Session.storeAfter (s : Session σ) (n : Nat) : Store := (s.history[n]?.map (·.after)).getD s.store

theorem Session.storeAfter_of_history (s : Session σ) {first second : ToolEvent} {later : List ToolEvent}
    (h : s.history = first :: second :: later) : s.storeAfter 0 = first.after ∧ s.storeAfter 1 = second.after := by
  simp [storeAfter, h]

/-- When its generator is done, everything is as it has to be. -/
theorem smallImitation_ready :
    let generated := smallImitation.2.storeAfter 0
    3 ≤ smallImitation.2.history.length ∧
      (generated.placeOf true (smallRequest.workDir ⟨"/r"⟩).bytes).toOption = some smallWork ∧
      (generated.place (⟨⟨"/r"⟩, .v279, smallLabel⟩ : Layout).archivePath.bytes).toOption =
        some ⟨[Bytes.ofString "r", Bytes.ofString "raw_modules"],
          .name (Bytes.ofString "fake_bpy_modules_2.79-1.zip"), false⟩ ∧
      (generated.top.get? (smallWork ++ [generatedEntry])).any Node.isPlain = true ∧
      ∀ text ∈ "fake_bpy_modules_2.79-1.zip" :: ownNames,
        (generated.top.get? (smallWork ++ [Bytes.ofString text])).isNone = true := by
  decide +kernel

theorem exists_of_three_le_length {α : Type} {l : List α} (h : 3 ≤ l.length) :
    ∃ a b c rest, l = a :: b :: c :: rest := by
  rcases l with _ | ⟨a, _ | ⟨b, _ | ⟨c, rest⟩⟩⟩
  · simp at h
  · simp at h
  · simp at h
  · exact ⟨a, b, c, rest, rfl⟩

/-- The archive and the project of the small release agree. -/
theorem small_release_agrees :
    ∃ (result : Except Failure Outcome) (t : Session (List Call)) (generated converted setup : ToolEvent)
      (later : List ToolEvent) (tree : Node) (members : List Member),
      (∀ c, Config.load ⟨smallCheckout, []⟩ ⟨"/r"⟩ = .ok c → (Imitation.executor none .ascending).ConvertsReadme c) ∧
      smallImitation = (result, t) ∧ t.history = [] ++ generated :: converted :: setup :: later ∧
      generated.after.top.get? (smallWork ++ [generatedEntry]) = some tree ∧ tree.Plain ∧
      ProjectAgrees ⟨⟨"/r"⟩, .v279, smallLabel⟩ (smallRequest.workDir ⟨"/r"⟩) smallWork
        [Bytes.ofString "r", Bytes.ofString "raw_modules"] tree converted.after members := by
  obtain ⟨hlength, hplace, harchive, htree, hfree⟩ := smallImitation_ready
  have hconverts (c : Config) (_ : Config.load ⟨smallCheckout, []⟩ ⟨"/r"⟩ = .ok c) :
      (Imitation.executor none .ascending).ConvertsReadme c := Imitation.convertsReadme none .ascending c
  cases hrun : smallImitation with
  | mk result t =>
    rw [hrun] at hlength hplace harchive htree hfree
    obtain ⟨generated, converted, setup, later, hhistory⟩ := exists_of_three_le_length hlength
    rw [(t.storeAfter_of_history hhistory).1] at hplace harchive htree hfree
    cases hnode : generated.after.top.get? (smallWork ++ [generatedEntry]) with
    | none => simp [hnode] at htree
    | some tree =>
      have hplain : tree.Plain := plain_of_isPlain (by simpa [hnode] using htree)
      obtain ⟨⟨members, hagrees⟩, -⟩ := archive_agrees_with_project hconverts hrun hhistory
        (eq_ok_of_toOption hplace) (eq_ok_of_toOption harchive) hnode hplain
        (fun text htext target hlink => by
          have hnone := hfree text htext
          rw [look_eq_link] at hlink
          simp [hlink] at hnone)
        (by decide)
      exact ⟨result, t, generated, converted, setup, later, tree, members, hconverts, rfl, hhistory, hnode, hplain,
        hagrees⟩

/-- The bytes of a plain file that is seen. -/
def Node.Sight.bytes? : Sight → Option Bytes
  | .file (.plain bytes) _ => some bytes
  | _ => none

/-- The bytes of the first file of a name in an archive that is seen. -/
def Node.Sight.packedBytes? (name : Bytes) : Sight → Option Bytes
  | .file (.archive .zip members) _ => members.findSome? fun
    | .file other (.plain bytes) => if other = name then some bytes else none
    | _ => none
  | _ => none

/-- The generator of a release writes a setup script of its own. -/
def scriptGenerator : Executor Unit := .writing "setup.py" (.plain [1]) .success

/-- A release of the small checkout with that generator. -/
def scriptRelease : Except Failure Outcome × Session Unit :=
  package scriptGenerator smallRequest ⟨"/r"⟩ smallLabel (.start ⟨smallCheckout, []⟩ () ⟨none, []⟩ false)

/-- That generator does nothing when the readme is converted, unless the readme is called as it is told to call
its output. -/
theorem Executor.convertsReadme_writing (name : String) (content : Content) (status : WaitStatus) {c : Config}
    (h : c.readme.text ≠ Layout.generatedName) : (Executor.writing name content status).ConvertsReadme c := by
  intro w tools s d _ _
  have hlast : (Call.readme c w).arguments.getLast? = some c.readme.text := rfl
  have hkept : ((Executor.writing name content status).run (.readme c w) tools s).store = s := by
    simp [Executor.writing, hlast, h]
  rw [hkept]
  exact .refl _ s

/-- What a generator calls `setup.py` is in the archive as it was generated, and in the project it is replaced by
the packaging metadata before the setup script is called. -/
theorem generated_setup_script_is_replaced :
    ∃ (result : Except Failure Outcome) (t : Session Unit) (generated converted setup : ToolEvent)
      (later : List ToolEvent) (tree : Node),
      (∀ c, Config.load ⟨smallCheckout, []⟩ ⟨"/r"⟩ = .ok c → scriptGenerator.ConvertsReadme c) ∧
      scriptRelease = (result, t) ∧ t.history = [] ++ generated :: converted :: setup :: later ∧
      generated.after.top.get? (smallWork ++ [generatedEntry]) = some tree ∧ tree.Plain ∧
      tree.look [Bytes.ofString Call.convertedReadme] = none ∧
      (tree.look [Bytes.ofString "setup.py"]).bind Sight.bytes? = some [1] ∧
      (converted.after.top.look smallArchive).bind
        (Sight.packedBytes? (Bytes.ofString "fake_bpy_modules_2.79-1/setup.py")) = some [1] ∧
      (converted.after.top.look (smallWork ++ [Bytes.ofString "setup.py"])).bind Sight.bytes? = some [] := by
  have hready : 3 ≤ scriptRelease.2.history.length ∧
      ((scriptRelease.2.storeAfter 0).top.get? (smallWork ++ [generatedEntry])).any (fun tree => tree.isPlain &&
        (tree.get? [Bytes.ofString Call.convertedReadme]).isNone &&
        (tree.look [Bytes.ofString "setup.py"]).bind Sight.bytes? == some [1]) = true ∧
      ((scriptRelease.2.storeAfter 1).top.look smallArchive).bind
        (Sight.packedBytes? (Bytes.ofString "fake_bpy_modules_2.79-1/setup.py")) = some [1] ∧
      ((scriptRelease.2.storeAfter 1).top.look (smallWork ++ [Bytes.ofString "setup.py"])).bind Sight.bytes? =
        some [] := by
    decide +kernel
  have hreadme : (Config.load ⟨smallCheckout, []⟩ ⟨"/r"⟩).toOption.all
      (fun c => c.readme.text != Layout.generatedName) = true := by
    decide +kernel
  have hconverts (c : Config) (hload : Config.load ⟨smallCheckout, []⟩ ⟨"/r"⟩ = .ok c) :
      scriptGenerator.ConvertsReadme c := by
    rw [hload] at hreadme
    exact Executor.convertsReadme_writing _ _ _ (by simpa [Except.toOption] using hreadme)
  obtain ⟨hlength, htree, harchive, hproject⟩ := hready
  cases hrun : scriptRelease with
  | mk result t =>
    rw [hrun] at hlength htree harchive hproject
    obtain ⟨generated, converted, setup, later, hhistory⟩ := exists_of_three_le_length hlength
    obtain ⟨hfirst, hsecond⟩ := t.storeAfter_of_history hhistory
    rw [hfirst] at htree
    rw [hsecond] at harchive hproject
    cases hnode : generated.after.top.get? (smallWork ++ [generatedEntry]) with
    | none => simp [hnode] at htree
    | some tree =>
      simp only [hnode, Option.any_some, Bool.and_eq_true, beq_iff_eq] at htree
      obtain ⟨⟨hplain, hnone⟩, hscript⟩ := htree
      exact ⟨result, t, generated, converted, setup, later, tree, hconverts, rfl, hhistory, hnode,
        plain_of_isPlain hplain, look_eq_none.2 (Option.isNone_iff_eq_none.1 hnone), hscript, harchive, hproject⟩

end StubRelease
