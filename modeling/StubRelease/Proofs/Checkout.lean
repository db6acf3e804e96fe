/-
# StubRelease.Proofs.Checkout -- a checkout between two runs

Runs that start in a clean checkout edit it at a few entries only, where nothing stood: the two output
directories and the working directories of releases. The root, the inputs and the configuration are read
as in the clean checkout ever after. What stands at the edited entries follows from a ledger of the runs
so far: how often each version was released, and whether a development install came through
(`Standing`).
-/
import StubRelease.Proofs.Releasing
import StubRelease.Proofs.Stages

namespace StubRelease

open Sequence Node
open Imitation (tree outName entryNames distName)

/-! ## Clean checkouts -/

/-- The entries of a checkout that runs make. -/
def Layout.outputNames : List Name :=
  Bytes.ofString rawModulesName :: Bytes.ofString releaseName ::
    Version.all.map fun v => Bytes.ofString ("tmp-" ++ v.text)

theorem Layout.mem_outputNames_work (v : Version) : Bytes.ofString ("tmp-" ++ v.text) ∈ outputNames := by
  cases v <;> decide

/-- The longest root with room for the longest name in an output directory. -/
def Layout.rootLimit : Nat := 3827

/-- A root whose directory `d` is a checkout in which nothing was run: the metadata and the readme are files,
there is no configuration file, and nothing stands where runs would write. -/
structure Store.CleanCheckout (s : Store) (root : Path) (d : List Name) : Prop where
  reaches : s.Reaches root d
  no_nul : (0 : UInt8) ∉ root.bytes
  metadata : ∀ name ∈ Config.metadataNames, ∃ content executable,
    s.top.look (d ++ [Bytes.ofString "src"] ++ [Bytes.ofString name]) = some (.file content executable)
  readme : ∃ content executable, s.top.look (d ++ [Bytes.ofString "README.md"]) = some (.file content executable)
  unconfigured : s.top.look (d ++ [Bytes.ofString Config.fileName]) = none
  unused : ∀ name ∈ Layout.outputNames, s.top.look (d ++ [name]) = none

namespace Store.CleanCheckout

variable {base s : Store} {root : Path} {d : List Name} {text : String} (h : base.CleanCheckout root d)
  (hroot : root.bytes.length ≤ Layout.rootLimit)

include h

/-- Runs take no directory and no link away. -/
theorem reaches_of_editedIn (hedited : base.EditedIn (Below d Layout.outputNames) s) : s.Reaches root d := by
  refine h.reaches.keeps (hedited.keepsWays ?_) hedited.cwd
  rintro p ⟨name, hname, rest, rfl⟩
  have hnone := h.unused name hname
  cases rest with
  | nil => rwa [List.append_nil]
  | cons below rest => exact look_below_of_not_dir (by simp [hnone]) below rest

include hroot

theorem finds (hedited : base.EditedIn (Below d Layout.outputNames) s) (hname : IsName (Bytes.ofString text))
    (hshort : (Bytes.ofString text).length ≤ Route.nameLimit) : s.Finds root text d := by
  refine ⟨h.reaches_of_editedIn hedited, h.no_nul, ?_⟩
  have hlength := Path.length_bytes_div_le (p := root) hname
  rw [Layout.rootLimit] at hroot
  rw [Route.nameLimit] at hshort
  rw [Route.lengthLimit]
  omega

/-- The path of an output directory houses it. -/
theorem houses (hedited : base.EditedIn (Below d Layout.outputNames) s) (hname : IsName (Bytes.ofString text))
    (houtput : Bytes.ofString text ∈ Layout.outputNames)
    (hdir : s.top.look (d ++ [Bytes.ofString text]) = some .dir) :
    s.Houses (Below d Layout.outputNames) (root / text) (d ++ [Bytes.ofString text]) 256 := by
  have houtputs : ∀ name ∈ Layout.outputNames, name.length ≤ 11 := by decide
  have hshort := houtputs _ houtput
  refine ⟨?_, ?_, Nat.le_refl _, fun q hq => ?_, hdir, fun t ht hstands => ?_⟩
  · rw [Path.mem_bytes_div hname]
    exact h.no_nul
  · have hlength := Path.length_bytes_div_le (p := root) hname
    rw [Layout.rootLimit] at hroot
    rw [Route.lengthLimit]
    omega
  · exact .of_entry houtput hq.isPrefix
  · exact Store.reaches_div hname (h.reaches_of_editedIn (hedited.trans ht))
      (Nat.le_trans hshort (by decide)) hstands

/-- The inputs of every run are read as in the clean checkout. -/
theorem supplied {σ : Type} (hedited : base.EditedIn (Below d Layout.outputNames) s) {j : Job σ}
    (hconfig : j.config = Config.standard.resolvedAgainst root) :
    j.Supplied (Below d Layout.outputNames) s := by
  have hsource : Bytes.ofString "src" ∉ Layout.outputNames := by decide
  have hreadme : Bytes.ofString "README.md" ∉ Layout.outputNames := by decide
  have hnames : ∀ name ∈ Config.metadataNames, IsName (Bytes.ofString name) ∧
      (Bytes.ofString name).length ≤ 11 := by decide
  have hin : IsName (Bytes.ofString "src") := by decide
  have hlength := Path.length_bytes_div_le (p := root) hin
  have hshort : (Bytes.ofString "src").length = 3 := by decide
  have hdir : j.config.scriptDir = root / "src" := by rw [hconfig]; rfl
  refine ⟨fun name hname => ?_, root, "README.md", by rw [hconfig]; rfl, by decide, by decide, ?_⟩
  · obtain ⟨content, executable, hfile⟩ := h.metadata name hname
    obtain ⟨hisName, hlength'⟩ := hnames name hname
    have hlast := Path.length_bytes_div_le (p := root / "src") hisName
    have hapart : ¬ Below d Layout.outputNames (d ++ [Bytes.ofString "src"] ++ [Bytes.ofString name]) :=
      Below.not_of_entry hsource (List.prefix_append _ _)
    rw [hdir]
    refine ⟨d ++ [Bytes.ofString "src"], content, executable, hapart, by rw [hedited.look _ hapart, hfile],
      fun t ht => ⟨?_, ?_, ?_⟩⟩
    · refine Store.reaches_div hin (h.reaches_of_editedIn (hedited.trans ht)) (by decide) ?_
      rw [(hedited.trans ht).look_entry hsource []]
      exact look_eq_dir_of_below hfile
    · rw [Path.mem_bytes_div hin]
      exact h.no_nul
    · rw [Layout.rootLimit] at hroot
      rw [Route.lengthLimit]
      omega
  · obtain ⟨content, executable, hfile⟩ := h.readme
    have hapart : ¬ Below d Layout.outputNames (d ++ [Bytes.ofString "README.md"]) :=
      Below.not_of_entry hreadme List.prefix_rfl
    exact ⟨d, content, executable, hapart, by rw [hedited.look _ hapart, hfile],
      fun t ht => h.finds hroot (hedited.trans ht) (by decide) (by decide)⟩

/-- Every run reads the standard settings. -/
theorem load (hedited : base.EditedIn (Below d Layout.outputNames) s) :
    Config.load s root = .ok (Config.standard.resolvedAgainst root) := by
  have hisName : IsName (Bytes.ofString Config.fileName) := by decide
  have hnone : s.top.look (d ++ [Bytes.ofString Config.fileName]) = none := by
    rw [hedited.look_entry (by decide) [], h.unconfigured]
  have hfile : s.isFile (Config.path root).bytes = false :=
    Store.not_isFile_of_look hisName (h.finds hroot hedited hisName (by decide)) (by decide) hnone
  rw [Config.load, Config.loadRaw, hfile]
  rfl

end Store.CleanCheckout

/-! ## What runs leave -/

/-- What is remembered of the runs so far. -/
structure Ledger where
  /-- How often each version was released, successfully or not. -/
  releases : Version → Nat
  /-- Whether a development install came through. -/
  installed : Bool

/-- A version was released once more. -/
def Ledger.released (ledger : Ledger) (v : Version) : Ledger :=
  { ledger with releases := fun u => if u = v then ledger.releases u + 1 else ledger.releases u }

/-- A development install staged its package, or found it staged. -/
def Ledger.developed (ledger : Ledger) : Ledger := { ledger with installed := true }

/-- Different entries of one directory are apart. -/
theorem not_entry_isPrefix_of_ne {d : List Name} {a b : Name} (h : a ≠ b) : ¬ d ++ [a] <+: d ++ [b] := by
  rwa [entry_isPrefix_iff]

/-- What stands in the release directory: nothing in the way of staging, what was generated once it was installed,
and the distributions of every version that was released. -/
structure Shelf (ledger : Ledger) (e : List Name) (s : Store) : Prop where
  stageable : Stageable s e
  generated : ∀ x ∈ entryNames, s.top.look (e ++ [x]) = if ledger.installed then tree.look [x] else none
  version : ∀ v : Version, s.top.look (e ++ [Bytes.ofString v.text]) = none ∨
    s.top.look (e ++ [Bytes.ofString v.text]) = some .dir
  dist : ∀ v : Version, s.top.look (e ++ [Bytes.ofString v.text] ++ [distName]) =
    if ledger.releases v = 0 then none else some .dir

/-- What stands between two runs at the entries that runs make. -/
structure Standing (base : Store) (d : List Name) (ledger : Ledger) (s : Store) : Prop where
  edited : base.EditedIn (Below d Layout.outputNames) s
  work : ∀ v : Version, s.top.look (d ++ [Bytes.ofString ("tmp-" ++ v.text)]) =
    if ledger.releases v < 2 then none else some .dir
  rawModules : s.top.look (d ++ [Bytes.ofString Layout.rawModulesName]) = none ∨
    s.top.look (d ++ [Bytes.ofString Layout.rawModulesName]) = some .dir
  archives : ∀ name, s.top.look (d ++ [Bytes.ofString Layout.rawModulesName] ++ [name]) ≠ some .dir
  releaseDir : s.top.look (d ++ [Bytes.ofString Layout.releaseName]) = none ∨
    s.top.look (d ++ [Bytes.ofString Layout.releaseName]) = some .dir
  shelf : Shelf ledger (d ++ [Bytes.ofString Layout.releaseName]) s

variable {base s t : Store} {d e : List Name} {ledger : Ledger}

/-- Staging is possible where its entries stand as they did. -/
theorem Stageable.of_get? (h : Stageable s e) (hsame : ∀ name, (∀ v : Version, name ≠ Bytes.ofString v.text) →
    t.top.get? (e ++ [name]) = s.top.get? (e ++ [name])) : Stageable t e := by
  have hout (v : Version) : outName ≠ Bytes.ofString v.text := by cases v <;> decide
  have hwritten (v : Version) : ∀ name ∈ Staging.writtenNames, Bytes.ofString name ≠ Bytes.ofString v.text := by
    cases v <;> decide
  have hversion (v : Version) : (Bytes.ofString v.text).length ≤ 22 := by cases v <;> decide
  refine ⟨?_, fun l => ?_, fun name hname => ?_⟩
  · rw [look, hsame _ hout]
    exact h.out
  · rw [look, hsame _ fun v => l.archive_ne (hversion v)]
    exact h.drafts l
  · rw [Writable, look, hsame _ fun v => hwritten v name hname]
    exact h.written name hname

/-- Staging is not seen at the other entries of its working directory. -/
theorem Job.HasStaged.look_entry {l : Layout} {r : List Name} {name : Name} (hstaged : HasStaged l e r s t)
    (hdown : ¬ e <+: r) (hup : ¬ r <+: e) (hlength : name.length ≤ 22) (hnot : name ∉ Staging.stagedNames)
    (rest : List Name) : t.top.look (e ++ name :: rest) = s.top.look (e ++ name :: rest) := by
  have hprefix : e ++ [name] <+: e ++ name :: rest := ⟨rest, by simp⟩
  refine hstaged.edited.look _ ?_
  rintro (hp | ⟨_, -, hat⟩)
  · refine Below.not_of_entry ?_ hprefix hp
    rw [Layout.stagedNames, List.mem_cons]
    rintro (heq | hmem)
    · exact l.archive_ne hlength heq.symm
    · exact hnot hmem
  · exact not_isPrefix_of_apart hdown hup (List.prefix_append _ _) ((List.prefix_append _ _).trans hat)

namespace Shelf

theorem of_get? (h : Shelf ledger e s)
    (hsame : ∀ name rest, t.top.get? (e ++ name :: rest) = s.top.get? (e ++ name :: rest)) :
    Shelf ledger e t where
  stageable := h.stageable.of_get? fun name _ => hsame name []
  generated x hx := by
    rw [look, hsame _ []]
    exact h.generated x hx
  version v := by
    rw [look, hsame _ []]
    exact h.version v
  dist v := by
    have hdist := h.dist v
    rw [List.append_assoc, List.singleton_append] at hdist ⊢
    rw [look, hsame]
    exact hdist

/-- A release of one version is seen at that version's entry only. -/
theorem published {v : Version} (h : Shelf ledger e s)
    (hsame : ∀ name, name ≠ Bytes.ofString v.text → ∀ rest,
      t.top.get? (e ++ name :: rest) = s.top.get? (e ++ name :: rest))
    (hversion : t.top.look (e ++ [Bytes.ofString v.text]) = some .dir)
    (hdist : t.top.look (e ++ [Bytes.ofString v.text] ++ [distName]) = some .dir) :
    Shelf (ledger.released v) e t where
  stageable := h.stageable.of_get? fun name hname => hsame name (hname v) []
  generated x hx := by
    have hne : ∀ x ∈ entryNames, x ≠ Bytes.ofString v.text := by cases v <;> decide
    rw [look, hsame _ (hne x hx) []]
    exact h.generated x hx
  version u := by
    by_cases heq : u = v
    · exact .inr (heq ▸ hversion)
    · rw [look, hsame _ (fun hsame => heq (Version.text_injective (Bytes.ofString_injective hsame))) []]
      exact h.version u
  dist u := by
    by_cases heq : u = v
    · rw [heq, hdist]
      simp [Ledger.released]
    · have hdist := h.dist u
      rw [List.append_assoc, List.singleton_append] at hdist ⊢
      rw [look, hsame _ fun hsame => heq (Version.text_injective (Bytes.ofString_injective hsame))]
      simp only [Ledger.released, heq, if_false]
      exact hdist

/-- A development install leaves what it has generated, and the distributions as they are. -/
theorem staged {l : Layout} {r : List Name} (h : Shelf ledger e s) (hdown : ¬ e <+: r) (hup : ¬ r <+: e)
    (hstaged : Job.HasStaged l e r s t) : Shelf ledger.developed e t where
  stageable := hstaged.stageable
  generated := hstaged.generated
  version v := by
    have hlength : (Bytes.ofString v.text).length ≤ 22 := by cases v <;> decide
    rw [hstaged.look_entry hdown hup hlength (by cases v <;> decide) []]
    exact h.version v
  dist v := by
    have hlength : (Bytes.ofString v.text).length ≤ 22 := by cases v <;> decide
    have hdist := h.dist v
    rw [List.append_assoc, List.singleton_append] at hdist ⊢
    rw [hstaged.look_entry hdown hup hlength (by cases v <;> decide)]
    exact hdist

end Shelf

/-! ## Steps between two standings -/

/-- Edits at other entries of a directory are not seen at an entry or below it. -/
theorem Store.EditedIn.get?_other {d : List Name} {P : List Name → Prop} (hedited : s.EditedIn P t) {a : Name}
    (hP : ∀ q, P q → ¬ d ++ [a] <+: q) (rest : List Name) :
    t.top.get? (d ++ a :: rest) = s.top.get? (d ++ a :: rest) := by
  refine hedited.get? _ fun q hq hat => hP q hat (List.IsPrefix.trans ⟨rest, ?_⟩ hq)
  simp

namespace Standing

/-- A directory that was made, or found, at an entry where directories are made. -/
theorem made (h : Standing base d ledger s) {a : Name} (ha : a ∈ Layout.outputNames)
    (hwork : ∀ v : Version, Bytes.ofString ("tmp-" ++ v.text) ≠ a) (hedited : s.EditedIn (Below d [a]) t)
    (hdir : t.top.look (d ++ [a]) = some .dir)
    (hbelow : ∀ name rest, t.top.get? (d ++ a :: name :: rest) = s.top.get? (d ++ a :: name :: rest)) :
    Standing base d ledger t := by
  have hstands (b : Name) (hb : s.top.look (d ++ [b]) = none ∨ s.top.look (d ++ [b]) = some .dir) :
      t.top.look (d ++ [b]) = none ∨ t.top.look (d ++ [b]) = some .dir := by
    by_cases heq : b = a
    · exact .inr (heq ▸ hdir)
    · rwa [hedited.look_entry (by simpa using heq) []]
  have hsame (b name : Name) (rest : List Name) :
      t.top.get? (d ++ [b] ++ name :: rest) = s.top.get? (d ++ [b] ++ name :: rest) := by
    rw [List.append_assoc, List.singleton_append]
    by_cases heq : b = a
    · rw [heq, hbelow]
    · exact hedited.get?_entry (by simpa using heq) _
  refine ⟨h.edited.trans (hedited.mono fun _ hp => hp.mono (by simpa using ha)), fun v => ?_,
    hstands _ h.rawModules, fun name => ?_, hstands _ h.releaseDir, h.shelf.of_get? fun name rest => hsame _ name rest⟩
  · rw [hedited.look_entry (by simpa using hwork v) [], h.work]
  · rw [look, hsame _ name []]
    exact h.archives name

end Standing

/-- Both output directories stand. -/
structure Furnished (base : Store) (d : List Name) (ledger : Ledger) (s : Store) : Prop
    extends Standing base d ledger s where
  rawModulesStands : s.top.look (d ++ [Bytes.ofString Layout.rawModulesName]) = some .dir
  releaseStands : s.top.look (d ++ [Bytes.ofString Layout.releaseName]) = some .dir

namespace Job

/-- The output directories can be made between two runs. -/
theorem makeOutputDirs_ends {σ : Type} {j : Job σ} (hbase : base.CleanCheckout j.layout.root d)
    (hroot : j.layout.root.bytes.length ≤ Layout.rootLimit) (h : Standing base d ledger s) :
    Run.Ends j.makeOutputDirs s (.ok ()) [] (Furnished base d ledger) := by
  obtain ⟨t, hraw, hedited, hstands, hbelow⟩ := Store.Finds.makeDirs Layout.isName_rawModules
    (hbase.finds hroot h.edited Layout.isName_rawModules (by decide)) (by decide) h.rawModules
  have ht : Standing base d ledger t :=
    h.made (by decide) (fun v => Layout.work_ne_rawModules v) hedited hstands hbelow
  obtain ⟨u, hrelease, hedited', hstands', hbelow'⟩ := Store.Finds.makeDirs Layout.isName_release
    (hbase.finds hroot ht.edited Layout.isName_release (by decide)) (by decide) ht.releaseDir
  have hu : Standing base d ledger u :=
    ht.made (by decide) (fun v => Layout.work_ne_release v) hedited' hstands' hbelow'
  refine Run.Ends.ofFiles_bind hraw (Run.Ends.ofFiles hrelease ⟨hu, ?_, hstands'⟩)
  rw [hedited'.look_entry (by simpa using Layout.rawModules_ne_release) [], hstands]

/-- What is left when the distributions of a release are built. -/
structure HasBuilt (l : Layout) (d : List Name) (s t : Store) : Prop where
  edited : s.EditedIn (fun p => Below d [Bytes.ofString ("tmp-" ++ l.version.text)] p ∨
    Below (d ++ [Bytes.ofString Layout.rawModulesName]) [Bytes.ofString l.archiveFileName] p) t
  archives : ∀ name, t.top.look (d ++ [Bytes.ofString Layout.rawModulesName] ++ [name]) ≠ some .dir
  work : t.top.look (d ++ [Bytes.ofString ("tmp-" ++ l.version.text)]) = some .dir
  dist : t.top.look (d ++ [Bytes.ofString ("tmp-" ++ l.version.text)] ++ [distName]) = some .dir

variable {order : Listing.Order} {j : Job (List Call)} (hj : j.executor = Imitation.executor none order)
  (hconfig : j.config = Config.standard.resolvedAgainst j.layout.root)
  (hbase : base.CleanCheckout j.layout.root d) (hroot : j.layout.root.bytes.length ≤ Layout.rootLimit)
  (hlabel : (Bytes.ofString j.layout.label.text).length ≤ 229)

include hj hconfig hbase hroot hlabel

/-- The distributions of a release are built in an empty working directory. -/
theorem build_ends (h : Furnished base d ledger s) :
    Run.Ends (j.build j.layout.workDir) (s.put d (Bytes.ofString ("tmp-" ++ j.layout.version.text)) .emptyDir)
      (.ok j.layout.archivePath)
      [.generator j.config .release j.layout.version j.sourceDir j.blenderDir j.layout.workDir,
        .readme j.config j.layout.workDir, .setup j.config .sdist j.layout.workDir,
        .setup j.config .bdistWheel j.layout.workDir] (HasBuilt j.layout d s) := by
  have hne := Layout.work_ne_rawModules j.layout.version
  have hdown := not_entry_isPrefix_of_ne (d := d) hne
  have hup := not_entry_isPrefix_of_ne (d := d) hne.symm
  -- the store with an empty working directory
  obtain ⟨t, ht⟩ : ∃ t, t = s.put d (Bytes.ofString ("tmp-" ++ j.layout.version.text)) .emptyDir := ⟨_, rfl⟩
  rw [← ht]
  have hput : s.EditedIn (Below d [Bytes.ofString ("tmp-" ++ j.layout.version.text)]) t := ht ▸ .put s d _ _
  have hedited : base.EditedIn (Below d Layout.outputNames) t :=
    h.edited.trans (hput.mono fun _ hp => hp.mono (by simpa using Layout.mem_outputNames_work _))
  have hwork (rest : List Name) : t.top.look (d ++ Bytes.ofString ("tmp-" ++ j.layout.version.text) :: rest) =
      emptyDir.look rest := by
    rw [ht]
    exact look_put (hbase.reaches_of_editedIn h.edited).dir _ _ rest
  have hempty (name : Name) :
      t.top.look (d ++ [Bytes.ofString ("tmp-" ++ j.layout.version.text)] ++ [name]) = none := by
    rw [List.append_assoc, List.singleton_append, hwork]
    rfl
  have hhouse := hbase.houses hroot hedited (Layout.isName_work _) (Layout.mem_outputNames_work _) (hwork [])
  have hraw := hbase.houses hroot hedited Layout.isName_rawModules (by decide)
    (by rw [hput.look_entry (by simpa using hne.symm) [], h.rawModulesStands])
  have harchives (name : Name) :
      t.top.look (d ++ [Bytes.ofString Layout.rawModulesName] ++ [name]) ≠ some .dir := by
    rw [hput.look _ (Below.not_of_entry (by simpa using hne.symm) (List.prefix_append _ _))]
    exact h.archives name
  -- what is staged
  have hgenerated := generateAndStage_ends hj .release hhouse hraw hlabel hdown hup
    (hbase.supplied hroot hedited hconfig) ⟨.inl (hempty _), fun _ => hempty _, fun _ _ => .inl (hempty _)⟩
    harchives fun x _ => hempty x
  refine hgenerated.bind fun u hu => ?_
  have hfree : u.top.look (d ++ [Bytes.ofString ("tmp-" ++ j.layout.version.text)] ++ [distName]) = none := by
    rw [hu.look_entry hdown hup (by decide) (by decide), hempty]
  -- what is built
  have hhouse' := hu.houses hhouse hraw hup
  refine (runSetup_builds hj hhouse' (by decide) hfree).bind fun v hv => .pure ?_
  obtain ⟨hbuilt, hdist, -⟩ := hv
  have hinside (p : List Name) (hp : Inside (d ++ [Bytes.ofString ("tmp-" ++ j.layout.version.text)]) p) :
      Below d [Bytes.ofString ("tmp-" ++ j.layout.version.text)] p :=
    .of_entry List.mem_cons_self hp.isPrefix
  refine ⟨(hput.mono fun _ => .inl).trans ((hu.edited.mono fun p hp => ?_).trans
    (hbuilt.mono fun p hp => .inl (hinside p hp.inside))), fun name => ?_, (hhouse'.after_below hbuilt).dir,
    look_eq_dir.2 ⟨_, hdist⟩⟩
  · exact hp.imp (fun hp => hinside p hp.inside) id
  · rw [hbuilt.look _ fun hp => not_isPrefix_of_apart hup hdown (List.prefix_append _ _) hp.inside.isPrefix]
    exact hu.archives name

end Job

end StubRelease
