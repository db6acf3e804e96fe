/-
# StubRelease.Proofs.Naming -- the names made of a label

A label is checked for its characters alone, and long after that an archive is named after it. Main statement
(`label_counts_by_length`): what is made of a label is always a name, but a legal one, that is one that is short
enough, exactly for a label of at most 229 bytes. A run with a longer label never succeeds: where another label's
archive is made its own is refused, when the generator has already been called. A run with a label that is short
enough makes its archive wherever another label's is made, unless its path is too long or something stands in the
way at the places it names. Nothing refuses the longer labels when they are read (`read_label_stops_archive`).
-/
import StubRelease.Proofs.Failing
import StubRelease.Proofs.Printing
import StubRelease.Proofs.RoundTrip
import StubRelease.Proofs.Staged
import StubRelease.Proofs.Stages

namespace StubRelease

open Sequence Node

variable {σ : Type}

/-! ## Legal names -/

/-- A name that a file system takes for an entry: it is not too long. -/
structure IsLegalName (bs : Bytes) : Prop extends IsName bs where
  short : bs.length ≤ Route.nameLimit

/-- How many bytes a label has. -/
def Label.size (l : Label) : Nat := (Bytes.ofString l.text).length

namespace Layout

theorem length_archiveRoot (l : Layout) : (Bytes.ofString l.archiveRootName).length = 22 + l.label.size := by
  rw [archiveRootName, Bytes.length_ofString_append, (bytes_archiveStem l.version).1, Label.size]

theorem isLegalName_archiveRoot_iff (l : Layout) :
    IsLegalName (Bytes.ofString l.archiveRootName) ↔ l.label.size ≤ 233 := by
  constructor
  · intro h
    have hshort := h.short
    rw [length_archiveRoot, Route.nameLimit] at hshort
    omega
  · intro h
    refine ⟨l.isName_archiveRoot, ?_⟩
    rw [length_archiveRoot, Route.nameLimit]
    omega

theorem isLegalName_archive_iff (l : Layout) :
    IsLegalName (Bytes.ofString l.archiveFileName) ↔ l.label.size ≤ 229 := by
  constructor
  · intro h
    have hshort := h.short
    rw [length_archive, Route.nameLimit] at hshort
    rw [Label.size]
    omega
  · intro h
    exact ⟨l.isName_archive, l.length_archive_le h⟩

end Layout

/-! ## A run up to its archive step -/

namespace Job

/-- A run up to its archive step: gives what it works with when its generator has returned. -/
def generate (e : Executor σ) (r : Request) (root : Path) (label : Label) : Run σ (Job σ) := do
  let j ← Job.enter e r root label
  Run.callChecked e (j.generatorCall r root)
  pure j

/-- The same run with another label. -/
def relabel (j : Job σ) (label : Label) : Job σ := { j with layout := { j.layout with label } }

end Job

/-- A run makes its archive when its generator has returned, and goes on from there. -/
theorem package_eq_generate (e : Executor σ) (r : Request) (root : Path) (label : Label) :
    package e r root label = (do
      let j ← Job.generate e r root label
      j.progress (Progress.archiving j.layout.archiveFileName)
      j.archiveGenerated (r.workDir root)
      j.leave r.mode (r.workDir root)) := by
  rw [package_eq]
  simp only [Job.generate, bind_assoc, pure_bind]

namespace Job

variable {e : Executor σ} {r : Request} {root : Path} {label : Label} {s t g : Session σ} {j : Job σ}

/-- Nothing up to the call of the generator looks at the label. -/
theorem enter_relabel (e : Executor σ) (r : Request) (root : Path) (label other : Label) :
    enter e r root other = (do
      let j ← enter e r root label
      pure (j.relabel other)) := by
  obtain ⟨mode, version, sourceDir, blenderDir, quiet⟩ := r
  cases mode with
  | release =>
    simp only [enter, bind_assoc, pure_bind]
    rfl
  | develop =>
    simp only [enter, bind_assoc, pure_bind]
    rfl

theorem layout_of_generate (h : generate e r root label s = (.ok j, g)) : j.layout = ⟨root, r.version, label⟩ := by
  obtain ⟨_, before, henter, h⟩ := bind_eq_ok.1 h
  obtain ⟨_, _, -, h⟩ := bind_eq_ok.1 h
  obtain ⟨hj, -⟩ := outcome_inj.1 h
  obtain rfl := Except.ok.inj hj
  exact (enter_eq_ok henter).1

/-- The generator is called alike and leaves the same whatever the label is. -/
theorem generate_relabel (e : Executor σ) (r : Request) (root : Path) (label other : Label) (s : Session σ) :
    generate e r root other s =
      ((generate e r root label s).1.map (relabel · other), (generate e r root label s).2) := by
  have hsame : generate e r root other = (do
      let j ← generate e r root label
      pure (j.relabel other)) := by
    simp only [generate, enter_relabel e r root label other, bind_assoc, pure_bind]
    rfl
  rw [hsame, run_bind]
  cases generate e r root label s with
  | mk result g => cases result <;> rfl

theorem generate_relabel_of_ok (h : generate e r root label s = (.ok j, g)) (other : Label) :
    generate e r root other s = (.ok (j.relabel other), g) := by
  rw [generate_relabel e r root label other s, h]
  rfl

/-! ## Labels that are too long -/

/-- An archive that was made tells that its name was looked up beside the modules. -/
theorem finds_of_archiveGenerated {w : Path} (h : j.archiveGenerated w s = (.ok (), t)) :
    s.store.isDir (w / Layout.generatedName).bytes = true ∧ ∃ d, s.store.Finds w j.layout.archiveFileName d ∧
      (Bytes.ofString j.layout.archiveFileName).length ≤ Route.nameLimit := by
  obtain ⟨summary, u, hzip, -⟩ := bind_eq_ok.1 h
  obtain ⟨hdir, -, place, opened, node, hopen, -⟩ := Archive.zipDirectory_packs (ofWork_eq_ok hzip).1
  obtain ⟨d, hdraft, hshort, -⟩ := Files.emptyFile_entry j.layout.isName_archive hopen
  exact ⟨hdir, d, hdraft, hshort⟩

/-- No archive is made for a label that is too long. -/
theorem size_le_of_archiveGenerated {w : Path} (h : j.archiveGenerated w s = (.ok (), t)) :
    j.layout.label.size ≤ 229 := by
  obtain ⟨-, d, -, hshort⟩ := finds_of_archiveGenerated h
  exact j.layout.isLegalName_archive_iff.1 ⟨j.layout.isName_archive, hshort⟩

/-- A draft whose name is too long is not made. -/
theorem emptyFile_draft_of_long {l : Layout} {w : Path} {u : Store} {d : List Name} (hw : u.Reaches w d)
    (hnul : (0 : UInt8) ∉ w.bytes) (hlong : 229 < l.label.size)
    (hnone : u.top.look (d ++ [Bytes.ofString l.archiveFileName]) = none) :
    Files.emptyFile (l.draftArchivePath w).bytes u = (.error (.os .nameTooLong), u) := by
  have hname := l.isName_archive
  by_cases hfits : (w / l.archiveFileName).bytes.length < Route.lengthLimit
  · have hshort : ¬ (Bytes.ofString l.archiveFileName).length ≤ Route.nameLimit := fun hshort =>
      Nat.not_le.2 hlong (l.isLegalName_archive_iff.1 ⟨hname, hshort⟩)
    exact Files.emptyFile_of_long hname ⟨hw, hnul, hfits⟩ hshort hnone
  · -- the whole path is too long, and is refused for that in the same words
    have hread : Route.read (w / l.archiveFileName).bytes = .error (.os .nameTooLong) := by
      rw [Route.read, if_neg (by rwa [Path.mem_bytes_div hname]), if_neg (Path.bytes_div_ne_nil hname),
        if_pos (Nat.le_of_not_lt hfits)]
    rw [Layout.draftArchivePath, Files.emptyFile, Files.writeSpot, run_bind, run_bind, Files.ask_eq, Store.place, hread]

/-- Archiving stops at a label that is too long, before it has changed anything. -/
theorem archiveGenerated_of_long {w : Path} {d : List Name}
    (hdir : s.store.isDir (w / Layout.generatedName).bytes = true) (hw : s.store.Reaches w d)
    (hlong : 229 < j.layout.label.size)
    (hnone : s.store.top.look (d ++ [Bytes.ofString j.layout.archiveFileName]) = none) :
    j.archiveGenerated w s = (.error (.io (.os .nameTooLong)), s) := by
  obtain ⟨hnul, -, -⟩ := Store.reaches_of_isDir Layout.isName_generated hdir
  have hrequire : Work.require (·.isDir (w / Layout.generatedName).bytes) (.missingInput (w / Layout.generatedName))
      s.store = (.ok (), s.store) := require_eq_ok.2 ⟨hdir, rfl⟩
  have hrefused : Archive.zipDirectory (Staging.generatedDir w) j.layout.archiveRootName (j.layout.draftArchivePath w)
      s.store = (.error (.io (.os .nameTooLong)), s.store) := by
    rw [Archive.zipDirectory, Staging.generatedDir, bind_of_ok _ hrequire, run_bind, ofFiles_eq,
      emptyFile_draft_of_long hw hnul hlong hnone]
    rfl
  rw [archiveGenerated, ofWork_bind_of_error _ hrefused]

end Job

/-! ## Labels that are short enough -/

/-- Nothing is in the way of an archive: its path and the path of its draft are not too long, no directory stands
where it will be, and nothing but a file where its draft is written. -/
structure Layout.Clear (l : Layout) (w : Path) (s : Store) : Prop where
  draftFits : (l.draftArchivePath w).bytes.length < Route.lengthLimit
  fits : l.archivePath.bytes.length < Route.lengthLimit
  draft : ∀ node, s.nodeAt false (l.draftArchivePath w).bytes = .ok node → node.isFile = true
  archive : ∀ node, s.nodeAt false l.archivePath.bytes = .ok node → node.isDir = false

/-- Where nothing stands nothing is in the way. -/
theorem Layout.Clear.of_free {l : Layout} {w : Path} {s : Store}
    (hdraftFits : (l.draftArchivePath w).bytes.length < Route.lengthLimit)
    (hfits : l.archivePath.bytes.length < Route.lengthLimit)
    (hdraft : s.hasEntry (l.draftArchivePath w).bytes = false) (harchive : s.hasEntry l.archivePath.bytes = false) :
    l.Clear w s where
  draftFits := hdraftFits
  fits := hfits
  draft node hnode := by simp [Store.hasEntry, hnode, Except.isOk, Except.toBool] at hdraft
  archive node hnode := by simp [Store.hasEntry, hnode, Except.isOk, Except.toBool] at harchive

/-- What is known of all that may stand at a path of an entry is known of what is seen there. -/
theorem Store.holds_of_nodeAt {s : Store} {p : Path} {text : String} {d : List Name} {P : Node → Prop}
    (hname : IsName (Bytes.ofString text)) (h : s.Finds p text d)
    (hshort : (Bytes.ofString text).length ≤ Route.nameLimit)
    (hall : ∀ node, s.nodeAt false (p / text).bytes = .ok node → P node) :
    ∀ node, s.top.get? (d ++ [Bytes.ofString text]) = some node → P node := by
  intro node hnode
  refine hall node ?_
  rw [nodeAt_div hname h hshort (by simp), hnode]

namespace Archive

/-- A tree without links that could be packed once can be packed under any name and beside any files. -/
theorem zipNode_relabel {s u : Store} {name other path : Bytes} {n : Node} (hn : n.Plain)
    (h : (zipNode s name path n).failure = none) : (zipNode u other path n).failure = none := by
  -- only the paths and the names of the tree itself can stop the packing
  have hopen := openable_of_zipNode hn h
  obtain ⟨-, htext⟩ | ⟨f, hf, -⟩ := zipNode_ends s name path n hn hopen
  · obtain ⟨hdone, -⟩ | ⟨f, -, hnames⟩ := zipNode_ends u other path n hn hopen
    · exact hdone
    · exact absurd htext hnames.not_textual
  · rw [h] at hf
    cases hf

end Archive

/-- Where the archive of one label is made, the archive of another one is made as well. -/
theorem Job.archiveGenerated_relabel {j : Job σ} {w : Path} {s t : Session σ}
    (h : j.archiveGenerated w s = (.ok (), t)) (label : Label) (hsize : label.size ≤ 229)
    (hclear : j.layout.Clear w s.store) (hclear' : (j.relabel label).layout.Clear w s.store)
    (hplain : ∀ tree, s.store.nodeAt false (w / Layout.generatedName).bytes = .ok tree → tree.Plain) :
    ∃ t', (j.relabel label).archiveGenerated w s = (.ok (), t') := by
  have hname := j.layout.isName_archive
  have hname' := (j.relabel label).layout.isName_archive
  have hshort' := (j.relabel label).layout.length_archive_le hsize
  -- the ways to the two directories are known from the archive that was made
  obtain ⟨hdir, d, hdraft, hshort⟩ := finds_of_archiveGenerated h
  obtain ⟨hnul, hfits, -⟩ := Store.reaches_of_isDir Layout.isName_generated hdir
  have hfrom : s.store.Finds w Layout.generatedName d := ⟨hdraft.reaches, hnul, hfits⟩
  obtain ⟨q, hplace, hlands⟩ := archiveGenerated_lands hdraft.reaches h
  obtain ⟨_, hto, heq⟩ := (Store.place_div_eq_ok hname).1 hplace
  cases heq
  obtain ⟨target, hlink, -⟩ | ⟨entries, executable, hentries, hpacked, -⟩ := hlands
  · -- behind a link the archive would be elsewhere, but none stands where the draft was written
    have hfile := Store.holds_of_nodeAt hname hdraft hshort hclear.draft _ (look_eq_link.1 hlink)
    cases hfile
  · have hdraft' : s.store.Finds w (j.relabel label).layout.archiveFileName d :=
      ⟨hdraft.reaches, hnul, hclear'.draftFits⟩
    have hto' : s.store.Finds (j.relabel label).layout.rawModulesDir (j.relabel label).layout.archiveFileName q :=
      ⟨hto.reaches, hto.no_nul, hclear'.fits⟩
    have htree : (Node.dir entries).Plain := by
      refine hplain _ ?_
      rw [Store.nodeAt_div Layout.isName_generated hfrom (by decide) (by simp), hentries]
    have hbeside := Store.holds_of_nodeAt hname' hdraft' hshort' hclear'.draft
    have hreplaced := Store.holds_of_nodeAt hname' hto' hshort' hclear'.archive
    obtain ⟨_, t', hdone, -⟩ := (j.relabel label).archiveGenerated_of_finds hfrom hdraft' hto' hshort' hentries
      (fun _ => Archive.zipNode_relabel htree hpacked)
      (fun target hlink => by cases hbeside _ (look_eq_link.1 hlink))
      (fun hdir => by
        obtain ⟨_, hget⟩ := look_eq_dir.1 hdir
        cases hbeside _ hget)
      (fun hdir => by
        obtain ⟨_, hget⟩ := look_eq_dir.1 hdir
        cases hreplaced _ hget)
    exact ⟨_, hdone⟩

/-! ## What a label decides -/

/-- What a label decides in a run, by its length. -/
structure Label.CountsByLength (label : Label) (e : Executor σ) (r : Request) (root : Path) (s : Session σ) :
    Prop where
  /-- What is made of the label is never empty, `.` or `..`, and holds neither a slash nor a zero byte. -/
  names : IsName (Bytes.ofString (⟨root, r.version, label⟩ : Layout).archiveRootName) ∧
    IsName (Bytes.ofString (⟨root, r.version, label⟩ : Layout).archiveFileName)
  /-- The directory in the archive has a legal name up to this length. -/
  legalRoot : IsLegalName (Bytes.ofString (⟨root, r.version, label⟩ : Layout).archiveRootName) ↔ label.size ≤ 233
  /-- The archive has a legal name up to this length. -/
  legalFile : IsLegalName (Bytes.ofString (⟨root, r.version, label⟩ : Layout).archiveFileName) ↔ label.size ≤ 229
  /-- With a longer label no run succeeds. -/
  fails : 229 < label.size → ∀ outcome t, package e r root label s ≠ (.ok outcome, t)
  /-- Up to the archive step a run is the same with every label, and fails alike if it does. -/
  alike : ∀ other, Job.generate e r root other s =
    ((Job.generate e r root label s).1.map (Job.relabel · other), (Job.generate e r root label s).2)
  /-- A longer label ends a run at the step that makes the archive of another label. -/
  stops : 229 < label.size → ∀ j g, Job.generate e r root label s = (.ok j, g) → ∀ other,
    ((j.relabel other).archiveGenerated (r.workDir root) g).1 = .ok () →
    (∀ d, g.store.placeOf true (r.workDir root).bytes = .ok d →
      g.store.top.look (d ++ [Bytes.ofString j.layout.archiveFileName]) = none) →
    ∃ t, package e r root label s = (.error (.io (.os .nameTooLong)), t) ∧ t.SameWork g
  /-- A label that is short enough passes the step that makes the archive of another label. -/
  passes : label.size ≤ 229 → ∀ j g, Job.generate e r root label s = (.ok j, g) → ∀ other,
    ((j.relabel other).archiveGenerated (r.workDir root) g).1 = .ok () →
    j.layout.Clear (r.workDir root) g.store → (j.relabel other).layout.Clear (r.workDir root) g.store →
    (∀ tree, g.store.nodeAt false (r.workDir root / Layout.generatedName).bytes = .ok tree → tree.Plain) →
    (j.archiveGenerated (r.workDir root) g).1 = .ok ()

section Runs

variable {e : Executor σ} {r : Request} {root : Path} {label : Label} {s g : Session σ} {j : Job σ}

theorem size_le_of_package {outcome : Outcome} {t : Session σ} (h : package e r root label s = (.ok outcome, t)) :
    label.size ≤ 229 := by
  rw [package_eq_generate] at h
  obtain ⟨j, g, hgenerate, h⟩ := bind_eq_ok.1 h
  obtain ⟨_, g', -, h⟩ := bind_eq_ok.1 h
  obtain ⟨_, t, harchive, -⟩ := bind_eq_ok.1 h
  have hsize := Job.size_le_of_archiveGenerated harchive
  rwa [Job.layout_of_generate hgenerate] at hsize

/-- A run ends with its archive step if that fails. -/
theorem package_of_archive_error (h : Job.generate e r root label s = (.ok j, g)) {failure : Failure}
    (harchive : ∀ u : Session σ, u.store = g.store → j.archiveGenerated (r.workDir root) u = (.error failure, u)) :
    ∃ t, package e r root label s = (.error failure, t) ∧ t.SameWork g := by
  obtain ⟨u, hsay, hu⟩ : ∃ u, j.progress (Progress.archiving j.layout.archiveFileName) g = (.ok (), u) ∧
      u.SameWork g := by
    rw [Job.progress, Run.progress]
    cases j.quiet with
    | true => exact ⟨g, rfl, rfl, rfl, rfl, rfl⟩
    | false => exact ⟨_, rfl, rfl, rfl, rfl, rfl⟩
  refine ⟨u, ?_, hu⟩
  rw [package_eq_generate, bind_of_ok _ h, bind_of_ok _ hsay, bind_of_error _ (harchive u hu.store)]

/-- The place of the directory that a run works in. -/
theorem Request.placeOf_workDir {u : Store} {d : List Name} (hw : u.Reaches (r.workDir root) d)
    (hdir : u.isDir (r.workDir root / Layout.generatedName).bytes = true) :
    u.placeOf true (r.workDir root).bytes = .ok d := by
  obtain ⟨text, hname, hwork⟩ := r.workDir_eq root
  rw [hwork] at hw hdir ⊢
  obtain ⟨hnul, hfits, -⟩ := Store.reaches_of_isDir Layout.isName_generated hdir
  rw [Path.mem_bytes_div hname] at hnul
  rw [Path.length_bytes_div Layout.isName_generated] at hfits
  exact Store.placeOf_div hname hnul (by omega) hw

/-- Where the archive of another label is made, a run with a label that is too long ends after the call of its
generator. -/
theorem package_of_long (hlong : 229 < label.size) (h : Job.generate e r root label s = (.ok j, g)) {other : Label}
    (hother : ((j.relabel other).archiveGenerated (r.workDir root) g).1 = .ok ())
    (hnone : ∀ d, g.store.placeOf true (r.workDir root).bytes = .ok d →
      g.store.top.look (d ++ [Bytes.ofString j.layout.archiveFileName]) = none) :
    ∃ t, package e r root label s = (.error (.io (.os .nameTooLong)), t) ∧ t.SameWork g := by
  obtain ⟨t, hdone⟩ : ∃ t, (j.relabel other).archiveGenerated (r.workDir root) g = (.ok (), t) :=
    ⟨_, Prod.ext hother rfl⟩
  obtain ⟨hdir, d, hdraft, -⟩ := Job.finds_of_archiveGenerated hdone
  have hfree := hnone d (Request.placeOf_workDir hdraft.reaches hdir)
  -- the line that is printed in between leaves the files as they are
  refine package_of_archive_error h fun u hu => ?_
  refine Job.archiveGenerated_of_long (hu ▸ hdir) (hu ▸ hdraft.reaches) ?_ (hu ▸ hfree)
  rwa [Job.layout_of_generate h]

theorem Job.relabel_relabel (h : Job.generate e r root label s = (.ok j, g)) (other : Label) :
    (j.relabel other).relabel label = j := by
  have hlayout := Job.layout_of_generate h
  cases j
  cases hlayout
  rfl

end Runs

/-- A label counts by its length, in every run, with every tool and in every tree. -/
theorem label_counts_by_length (label : Label) (e : Executor σ) (r : Request) (root : Path) (s : Session σ) :
    label.CountsByLength e r root s where
  names := ⟨Layout.isName_archiveRoot _, Layout.isName_archive _⟩
  legalRoot := Layout.isLegalName_archiveRoot_iff _
  legalFile := Layout.isLegalName_archive_iff _
  fails hlong outcome t h := Nat.not_le.2 hlong (size_le_of_package h)
  alike other := Job.generate_relabel e r root label other s
  stops hlong _ _ h _ hother hnone := package_of_long hlong h hother hnone
  passes hsize j g h other hother hclear hclear' hplain := by
    have hback := Job.relabel_relabel h other
    obtain ⟨t, hdone⟩ : ∃ t, (j.relabel other).archiveGenerated (r.workDir root) g = (.ok (), t) :=
      ⟨_, Prod.ext hother rfl⟩
    obtain ⟨t', hdone'⟩ := Job.archiveGenerated_relabel hdone label hsize hclear' (hback ▸ hclear) hplain
    rw [hback] at hdone'
    rw [hdone']

/-! ### A label that is too long -/

/-- A label of one byte more than an archive's name leaves room for. -/
def longLabel : Label where
  text := String.ofList (List.replicate 230 'a')
  nonempty := fun h => by
    have hnil := congrArg String.toList h
    rw [String.toList_ofList] at hnil
    cases hnil
  accepted := by
    rw [String.toList_ofList]
    decide +kernel

theorem size_longLabel : longLabel.size = 230 := by decide +kernel

/-- Another label. -/
def otherLabel : Label := ⟨"2", by decide, by decide⟩

/-- The small release when its generator has returned. -/
def smallGenerated : Except Failure (Job Unit) × Session Unit :=
  Job.generate (Executor.putting smallTree) smallRequest ⟨"/r"⟩ longLabel smallSession

/-- It can be archived with a short label, and nothing is in the way of two of them. -/
theorem smallGenerated_ready :
    smallGenerated.2.history.length = 1 ∧
      (smallGenerated.1.toOption.bind fun j => ((j.relabel smallLabel).archiveGenerated
        (smallRequest.workDir ⟨"/r"⟩) smallGenerated.2).1.toOption) = some () ∧
      (smallGenerated.2.store.placeOf true (smallRequest.workDir ⟨"/r"⟩).bytes).toOption = some smallWork ∧
      (smallGenerated.2.store.top.get? (smallWork ++
        [Bytes.ofString (⟨⟨"/r"⟩, .v279, longLabel⟩ : Layout).archiveFileName])).isNone = true ∧
      (smallGenerated.2.store.nodeAt false
        (smallRequest.workDir ⟨"/r"⟩ / Layout.generatedName).bytes).toOption.any Node.isPlain = true ∧
      ∀ label ∈ [smallLabel, otherLabel],
        let l : Layout := ⟨⟨"/r"⟩, .v279, label⟩
        ((l.draftArchivePath (smallRequest.workDir ⟨"/r"⟩)).bytes.length < Route.lengthLimit ∧
          l.archivePath.bytes.length < Route.lengthLimit) ∧
        smallGenerated.2.store.hasEntry (l.draftArchivePath (smallRequest.workDir ⟨"/r"⟩)).bytes = false ∧
        smallGenerated.2.store.hasEntry l.archivePath.bytes = false := by
  refine ⟨?_, ?_, ?_, ?_, ?_, ?_⟩
  all_goals decide +kernel

/-- What is known of the small release when its generator has returned. -/
theorem exists_smallGenerated :
    ∃ j g, Job.generate (Executor.putting smallTree) smallRequest ⟨"/r"⟩ longLabel smallSession = (.ok j, g) ∧
      g.history.length = 1 ∧ ((j.relabel smallLabel).archiveGenerated (smallRequest.workDir ⟨"/r"⟩) g).1 = .ok () ∧
      (∀ d, g.store.placeOf true (smallRequest.workDir ⟨"/r"⟩).bytes = .ok d →
        g.store.top.look (d ++ [Bytes.ofString j.layout.archiveFileName]) = none) ∧
      (∀ label ∈ [smallLabel, otherLabel],
        (j.relabel label).layout.Clear (smallRequest.workDir ⟨"/r"⟩) g.store) ∧
      ∀ tree, g.store.nodeAt false (smallRequest.workDir ⟨"/r"⟩ / Layout.generatedName).bytes = .ok tree →
        tree.Plain := by
  obtain ⟨hhistory, hpasses, hplace, hnone, htree, hfree⟩ := smallGenerated_ready
  cases hrun : smallGenerated with
  | mk result g =>
    rw [hrun] at hhistory hpasses hplace hnone htree hfree
    cases result with
    | error failure => cases hpasses
    | ok j =>
      have hlayout := Job.layout_of_generate hrun
      refine ⟨j, g, hrun, hhistory, eq_ok_of_toOption hpasses, fun d hd => ?_, fun label hmem => ?_, fun tree hnode => ?_⟩
      · rw [hd] at hplace
        obtain rfl := Option.some.inj hplace
        rw [hlayout, look_eq_none]
        exact Option.isNone_iff_eq_none.1 hnone
      · obtain ⟨⟨hdraftFits, hfits⟩, hdraft, harchive⟩ := hfree label hmem
        rw [Job.relabel, hlayout]
        exact .of_free hdraftFits hfits hdraft harchive
      · rw [hnode] at htree
        exact plain_of_isPlain (by simpa [Except.toOption] using htree)

/-- The small release makes its archive with labels that are short, and ends there with one that is too long. -/
theorem long_label_stops_small_release :
    ∃ j g, Job.generate (Executor.putting smallTree) smallRequest ⟨"/r"⟩ longLabel smallSession = (.ok j, g) ∧
      ((j.relabel smallLabel).archiveGenerated (smallRequest.workDir ⟨"/r"⟩) g).1 = .ok () ∧
      ((j.relabel otherLabel).archiveGenerated (smallRequest.workDir ⟨"/r"⟩) g).1 = .ok () ∧
      ∃ t, package (Executor.putting smallTree) smallRequest ⟨"/r"⟩ longLabel smallSession =
        (.error (.io (.os .nameTooLong)), t) ∧ t.SameWork g := by
  obtain ⟨j, g, hrun, -, hsmall, hnone, hclear, hplain⟩ := exists_smallGenerated
  have hother := label_counts_by_length otherLabel (Executor.putting smallTree) smallRequest ⟨"/r"⟩ smallSession
  have hlong := label_counts_by_length longLabel (Executor.putting smallTree) smallRequest ⟨"/r"⟩ smallSession
  exact ⟨j, g, hrun, hsmall,
    hother.passes (by decide) _ g (Job.generate_relabel_of_ok hrun otherLabel) smallLabel hsmall
      (hclear otherLabel (by simp)) (hclear smallLabel (by simp)) hplain,
    hlong.stops (by rw [size_longLabel]; decide) j g hrun smallLabel hsmall hnone⟩

/-- What is read as a label can be too long for an archive: the release ends when its generator has been called. -/
theorem read_label_stops_archive :
    Label.parse longLabel.text = .ok longLabel ∧
      ¬ IsLegalName (Bytes.ofString (⟨⟨"/r"⟩, .v279, longLabel⟩ : Layout).archiveFileName) ∧
        ∃ t, package (Executor.putting smallTree) smallRequest ⟨"/r"⟩ longLabel smallSession =
          (.error (.io (.os .nameTooLong)), t) ∧ t.history.length = 1 := by
  refine ⟨Label.parse_text _, ?_, ?_⟩
  · rw [Layout.isLegalName_archive_iff, size_longLabel]
    decide
  · obtain ⟨j, g, hrun, hhistory, hsmall, hnone, -⟩ := exists_smallGenerated
    obtain ⟨t, hfailed, hsame⟩ := package_of_long (by rw [size_longLabel]; decide) hrun hsmall hnone
    exact ⟨t, hfailed, hsame.history ▸ hhistory⟩

end StubRelease
