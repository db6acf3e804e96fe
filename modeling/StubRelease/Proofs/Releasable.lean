/-
# StubRelease.Proofs.Releasable -- when a release is made, and what it leaves

With the standard settings and the imitated tools a release is made exactly where its checkout is ready for it: its
paths can be read, the metadata and the readme are there, and nothing stands in the way of what it delivers
(`Layout.Releasable`). What is left then follows from the checkout alone. The archive and the distributions are always
the same ones, and all else stays (`Layout.Released`). Neither the calls before nor what other versions have
delivered come into it.
-/
import StubRelease.Proofs.Aggregates
import StubRelease.Proofs.Checkout

namespace StubRelease

open Sequence Node
open Imitation (tree outName entryNames distName distributions)

/-! ## Inputs -/

/-- The metadata and the readme of a checkout are files. -/
structure Store.HasInputs (s : Store) (d : List Name) : Prop where
  metadata : ∀ name ∈ Config.metadataNames, ∃ content executable,
    s.top.look (d ++ [Bytes.ofString "src"] ++ [Bytes.ofString name]) = some (.file content executable)
  readme : ∃ content executable, s.top.look (d ++ [Bytes.ofString "README.md"]) = some (.file content executable)

namespace Layout

variable {l : Layout} {d p : List Name} {base s t : Store}

theorem mayAlter_work : l.MayAlter d .release (l.workAt d) := .inl List.prefix_rfl

theorem mayAlter_archive : l.MayAlter d .release (l.archiveAt d) := .inr (.inl rfl)

theorem mayAlter_version : l.MayAlter d .release (l.versionAt d) := .inr (.inr (.inl rfl))

theorem mayAlter_dist (rest : List Name) : l.MayAlter d .release (l.distAt d ++ rest) :=
  .inr (.inr (.inr (List.prefix_append _ _)))

/-- What a release alters is below the entries that runs make. -/
theorem MayAlter.below (h : l.MayAlter d .release p) : Below d outputNames p := by
  have hraw : Bytes.ofString rawModulesName ∈ outputNames := by decide
  have hrelease : Bytes.ofString releaseName ∈ outputNames := by decide
  rcases h with hwork | rfl | rfl | hdist
  · exact .of_entry (mem_outputNames_work l.version) hwork
  · exact .of_entry hraw rawModulesAt_isPrefix_archiveAt
  · exact .of_entry hrelease releaseAt_isPrefix_versionAt
  · exact .of_entry hrelease (releaseAt_isPrefix_distAt.trans hdist)

/-- What is at or below an entry that no run makes is not in the working directory. -/
theorem not_inside_workAt {name : Name} (hname : name ∉ outputNames) (hp : d ++ [name] <+: p) :
    ¬ Inside (l.workAt d) p := by
  intro hinside
  exact Below.not_of_entry hname hp (.of_entry (mem_outputNames_work l.version) hinside.isPrefix)

end Layout

theorem Store.HasInputs.of_look {s t : Store} {d : List Name} (h : s.HasInputs d)
    (hlook : ∀ p, ¬ Below d Layout.outputNames p → t.top.look p = s.top.look p) : t.HasInputs d := by
  have hsource : Bytes.ofString "src" ∉ Layout.outputNames := by decide
  have hreadme : Bytes.ofString "README.md" ∉ Layout.outputNames := by decide
  constructor
  case metadata =>
    intro name hname
    rw [hlook _ (Below.not_of_entry hsource (List.prefix_append _ _))]
    exact h.metadata name hname
  case readme =>
    rw [hlook _ (Below.not_of_entry hreadme List.prefix_rfl)]
    exact h.readme

/-- Where metadata was copied, it stood in the script directory. -/
theorem Staging.copyEach_eq_ok {c : Config} {w : Path} {names : List String} {s t : Store} (hs : s.top.Plain)
    (hnames : ∀ name ∈ names, IsName (Bytes.ofString name)) (hapart : s.spelled c.scriptDir ≠ s.spelled w)
    (h : copyMetadata.each w c names s = (.ok (), t)) : ∀ name ∈ names, ∃ content executable,
      s.top.look (s.spelled c.scriptDir ++ [Bytes.ofString name]) = some (.file content executable) := by
  induction names generalizing s with
  | nil => simp
  | cons first rest ih =>
    obtain ⟨_, u, hfirst, hrest⟩ := bind_eq_ok.1 h
    have halters := copyMetadataFile_alters (w := w) hs c.scriptDir (hnames first List.mem_cons_self)
    rw [hfirst] at halters
    obtain ⟨_, v, hrequire, -⟩ := bind_eq_ok.1 hfirst
    obtain ⟨hfound, -⟩ := require_eq_ok.1 hrequire
    obtain ⟨-, -, hfile⟩ := Store.finds_of_isFile (hnames first List.mem_cons_self) hs.linkFree hfound
    intro name hname
    rcases List.mem_cons.1 hname with rfl | hlater
    · exact hfile
    · have hspelled (p : Path) : u.spelled p = s.spelled p := halters.spelled p
      have hkept := ih halters.plain (fun other hother => hnames other (List.mem_cons_of_mem _ hother))
        (by rwa [hspelled, hspelled]) hrest name hlater
      rw [hspelled, halters.look] at hkept
      · exact hkept
      · exact fun heq => hapart (List.append_inj_left' heq rfl)

/-! ## Room -/

/-- A file that was written has a path that can be read. -/
theorem Files.fits_of_writeFile {p : Path} {text : String} {content : Content} {s t : Store}
    (hname : IsName (Bytes.ofString text)) (h : writeFile (p / text).bytes content s = (.ok (), t)) :
    (p / text).bytes.length < Route.lengthLimit := by
  obtain ⟨place, u, hemptied, -⟩ := bind_eq_ok.1 h
  obtain ⟨spot, v, hspot, -⟩ := bind_eq_ok.1 hemptied
  obtain ⟨-, -, found, hplace⟩ := writeSpot_eq_ok hspot
  obtain ⟨d, hfinds, -⟩ := (Store.place_div_eq_ok hname).1 hplace
  exact hfinds.fits

namespace Imitation

/-- The room that the imitated tools need in the directory they run in, for a wheel in `dist`. -/
def room : Nat := 38

/-- A call that ended well has done to the files what it does. -/
theorem of_callChecked_eq_ok {order : Listing.Order} {c : Call} {u v : Session (List Call)}
    (h : Run.callChecked (executor none order) c u = (.ok (), v)) :
    effect c.cwd c.arguments u.store = (.ok (), v.store) := by
  obtain ⟨status, w, hcall, hchecked⟩ := bind_eq_ok.1 h
  have hstore : w = v := by
    cases hsuccess : status.isSuccess with
    | true =>
      rw [hsuccess] at hchecked
      exact (outcome_inj.1 hchecked).2
    | false =>
      rw [hsuccess] at hchecked
      cases (outcome_inj.1 hchecked).1
  subst hstore
  obtain ⟨hresult, rfl⟩ := outcome_inj.1 hcall
  cases hrun : Work.ofFiles (effect c.cwd c.arguments) u.store with
  | mk result t =>
    cases result with
    | error failure => simp [executor, hrun] at hresult
    | ok _ =>
      have hleft : ((executor none order).run c u.tools u.store).store = t := by simp [executor, hrun]
      rw [← ofFiles_eq_ok, hrun]
      exact congrArg (Prod.mk _) hleft.symm

/-- A wheel that was written had room. -/
theorem room_of_writeDist {w : Path} {last : String} (hlast : IsName (Bytes.ofString last)) {s t : Store}
    (h : writeDist (w / last) wheelName s = (.ok (), t)) :
    (w / last).bytes.length + room < Route.lengthLimit := by
  obtain ⟨_, u, -, hwritten⟩ := bind_eq_ok.1 h
  have hfits := Files.fits_of_writeFile isName_wheel hwritten
  have hlengths : (Bytes.ofString wheelName).length = 32 ∧ (Bytes.ofString Layout.distName).length = 4 := by decide
  obtain ⟨hwheel, hdist⟩ := hlengths
  rw [Path.length_bytes_div isName_wheel, Path.needsSlash_div Layout.isName_dist,
    Path.length_bytes_div Layout.isName_dist, Path.needsSlash_div hlast, hwheel, hdist] at hfits
  exact hfits

end Imitation

/-! ## What a release needs and leaves -/

namespace Layout

/-- A checkout in which a release can be made: its paths can be read, its inputs are files, and nothing stands in
the way of what it delivers. -/
structure Releasable (l : Layout) (d : List Name) (base : Store) : Prop where
  fits : l.archivePath.bytes.length < Route.lengthLimit
  room : l.workDir.bytes.length + Imitation.room < Route.lengthLimit
  short : (Bytes.ofString l.archiveFileName).length ≤ Route.nameLimit
  inputs : base.HasInputs d
  archive : base.top.look (l.archiveAt d) ≠ some .dir
  version : base.top.look (l.versionAt d) = none ∨ base.top.look (l.versionAt d) = some .dir
  free : base.top.look (l.distAt d) = none

/-- What a release with the imitated tools leaves of a checkout. -/
structure Released (l : Layout) (d : List Name) (base t : Store) : Prop where
  plain : t.top.Plain
  cwd : t.cwd = base.cwd
  archive : t.top.look (l.archiveAt d) = some (l.archiveOf l.workDir).sight
  version : t.top.look (l.versionAt d) = some .dir
  dist : ∀ rest, t.top.look (l.distAt d ++ rest) = distributions.look rest
  cleared : ∀ rest, t.top.look (l.workAt d ++ rest) = none
  look : ∀ p, ¬ l.MayAlter d .release p → t.top.look p = base.top.look p

variable {l : Layout} {d p : List Name} {base s t : Store}

/-- What is left where a release alters something does not depend on the checkout. -/
theorem Released.look_altered {other u : Store} (h : l.Released d base t) (h' : l.Released d other u)
    (hp : l.MayAlter d .release p) : t.top.look p = u.top.look p := by
  rcases hp with ⟨rest, rfl⟩ | rfl | rfl | ⟨rest, rfl⟩
  · rw [h.cleared, h'.cleared]
  · rw [h.archive, h'.archive]
  · rw [h.version, h'.version]
  · rw [h.dist, h'.dist]

/-- The checkout decides what is left. -/
theorem Released.unique {u : Store} (h : l.Released d base t) (h' : l.Released d base u) : t = u := by
  refine Store.eq_of_look h.plain h'.plain (h.cwd.trans h'.cwd.symm) fun p => ?_
  by_cases hp : l.MayAlter d .release p
  · exact h.look_altered h' hp
  · rw [h.look p hp, h'.look p hp]

/-! ## From the archive to the distributions -/

/-- Edits inside the working directory leave every directory of the checkout. -/
theorem Working.keeps_edited (hs : l.Working d base s) (hsite : l.Site d base)
    (hedited : s.EditedIn (Inside (l.workAt d)) t) : base.top.KeepsDirs t.top := by
  intro p hp
  have hapart : ¬ Inside (l.workAt d) p := fun hinside => hsite.not_isPrefix (by simp [hp]) hinside.isPrefix
  rw [hedited.look p hapart, hs.keeps p hp]

/-- Edits inside the working directory leave a release building. -/
theorem Working.editedIn (hs : l.Working d base s) (hsite : l.Site d base)
    (hedited : s.EditedIn (Inside (l.workAt d)) t) (hplain : t.top.Plain) : l.Working d base t where
  plain := hplain
  cwd := hedited.cwd.trans hs.cwd
  keeps := hs.keeps_edited hsite hedited
  stands := by rw [hedited.look _ (not_inside_self _), hs.stands]

/-- A release that builds can read its inputs whatever it does in its working directory. -/
theorem Working.supplied {σ : Type} {j : Job σ} (hs : l.Working d base s) (hsite : l.Site d base)
    (hconfig : j.config = Config.standard.resolvedAgainst l.root)
    (hroom : l.workDir.bytes.length + Imitation.room < Route.lengthLimit) (hinputs : s.HasInputs d) :
    j.Supplied (Inside (l.workAt d)) s := by
  have hsource : IsName (Bytes.ofString "src") := by decide
  have hnames : ∀ name ∈ Config.metadataNames, IsName (Bytes.ofString name) ∧
      (Bytes.ofString name).length ≤ 11 := by decide
  have hlengths : (Bytes.ofString "src").length = 3 ∧ (Bytes.ofString "README.md").length = 9 := by decide
  obtain ⟨hsourceLength, hreadmeLength⟩ := hlengths
  have hwork : l.root.bytes.length < l.workDir.bytes.length := Path.length_bytes_lt_div (isName_work l.version)
  rw [Imitation.room] at hroom
  have hreaches {t : Store} (hedited : s.EditedIn (Inside (l.workAt d)) t) : t.Reaches l.root d :=
    hsite.reaches (hs.keeps_edited hsite hedited) (hedited.cwd.trans hs.cwd)
  have hscripts : j.config.scriptDir = l.root / "src" := by rw [hconfig]; rfl
  have hreadme : j.config.readme = l.root / "README.md" := by rw [hconfig]; rfl
  constructor
  case metadata =>
    intro name hname
    obtain ⟨content, executable, hfile⟩ := hinputs.metadata name hname
    obtain ⟨hisName, hlength⟩ := hnames name hname
    have hpath := Path.length_bytes_div_le (p := l.root / "src") hisName
    have hscriptsPath := Path.length_bytes_div_le (p := l.root) hsource
    rw [hscripts]
    refine ⟨d ++ [Bytes.ofString "src"], content, executable,
      not_inside_workAt (by decide) (List.prefix_append _ _), hfile, fun t ht => ⟨?_, ?_, by omega⟩⟩
    · refine Store.reaches_div hsource (hreaches ht) (by decide) ?_
      rw [ht.look _ (not_inside_workAt (by decide) List.prefix_rfl)]
      exact look_eq_dir_of_below hfile
    · rw [Path.mem_bytes_div hsource]
      exact hsite.finds.no_nul
  case readme =>
    obtain ⟨content, executable, hfile⟩ := hinputs.readme
    have hisName : IsName (Bytes.ofString "README.md") := by decide
    have hpath := Path.length_bytes_div_le (p := l.root) hisName
    exact ⟨l.root, "README.md", hreadme, by decide, by decide, d, content, executable,
      not_inside_workAt (by decide) List.prefix_rfl, hfile,
      fun t ht => ⟨hreaches ht, hsite.finds.no_nul, by omega⟩⟩

namespace Site

variable (h : l.Site d base)

/-- Archiving edits the places of the archive and its draft. -/
theorem archived_edited :
    (l.generated d base).EditedIn (ArchivePlaces l (l.workAt d) (rawModulesAt d)) (l.archived d base) :=
  ((Store.EditedIn.drop _ _ _).mono fun _ => .inl).trans ((Store.EditedIn.put _ _ _ _).mono fun _ => .inr)

include h

theorem archived_look_archive :
    (l.archived d base).top.look (l.archiveAt d) = some (l.archiveOf l.workDir).sight := by
  have hdrop : ((l.generated d base).drop (l.workAt d) (Bytes.ofString l.archiveFileName)).top.look (rawModulesAt d) =
      some .dir := by
    have hapart : ¬ l.workAt d <+: rawModulesAt d := not_workAt_of_rawModulesAt List.prefix_rfl
    rw [Store.top_drop, look_drop_elsewhere _ fun hat => hapart ((List.prefix_append _ _).trans hat),
      generated_look hapart, h.rawModules]
  rw [archived, archiveAt, Store.top_put, look_put hdrop]
  rfl

/-- Outside the working directory and the archive's place nothing has happened when the archive is made. -/
theorem archived_look (harchive : base.top.look (l.archiveAt d) ≠ some .dir) (hwork : ¬ l.workAt d <+: p)
    (hne : p ≠ l.archiveAt d) : (l.archived d base).top.look p = base.top.look p := by
  by_cases hat : l.archiveAt d <+: p
  · -- below a file there is nothing
    obtain ⟨rest, rfl⟩ := hat
    cases rest with
    | nil => exact absurd (List.append_nil _) hne
    | cons first rest =>
      have hfile : (l.archived d base).top.look (l.archiveAt d) ≠ some .dir := by
        rw [h.archived_look_archive]
        exact nofun
      rw [look_below_of_not_dir harchive, look_below_of_not_dir hfile]
  · rw [archived_edited.look, generated_look hwork]
    rintro (hdraft | ⟨name, hname, hbelow⟩)
    · exact hwork hdraft.inside.isPrefix
    · obtain rfl := List.mem_singleton.1 hname
      exact hat hbelow

/-- Making the archive leaves everything that is not below the entries that runs make. -/
theorem archived_look_input (harchive : base.top.look (l.archiveAt d) ≠ some .dir) (hp : ¬ Below d outputNames p) :
    (l.archived d base).top.look p = base.top.look p := by
  apply h.archived_look harchive
  · intro hat
    exact hp (.of_entry (mem_outputNames_work l.version) hat)
  · rintro rfl
    exact hp mayAlter_archive.below

/-- What was generated stands in the working directory, and nothing else. -/
theorem archived_work : (l.archived d base).top.get? (l.workAt d ++ [outName]) = some tree ∧
    ∀ name, name ≠ outName → (l.archived d base).top.look (l.workAt d ++ [name]) = none := by
  have hdir := h.entered_working.stands
  have hraw {p : List Name} (hp : l.workAt d <+: p) :
      ¬ Below (rawModulesAt d) [Bytes.ofString l.archiveFileName] p := by
    rintro ⟨name, -, hat⟩
    exact not_workAt_of_rawModulesAt ((List.prefix_append _ _).trans hat) hp
  have hne : Bytes.ofString l.archiveFileName ≠ outName := l.archive_ne (by decide)
  refine ⟨?_, fun name hname => ?_⟩
  · rw [archived_edited.get?, generated, Store.top_put, get?_put_self hdir]
    rintro q hq (hdraft | harchive)
    · exact Below.not_of_entry (by simpa using hne.symm) hq hdraft
    · exact hraw ((List.prefix_append _ _).trans hq) harchive
  · by_cases hdraft : name = Bytes.ofString l.archiveFileName
    · have hput := Store.EditedIn.put ((l.generated d base).drop (l.workAt d) (Bytes.ofString l.archiveFileName))
        (rawModulesAt d) (Bytes.ofString l.archiveFileName) (l.archiveOf l.workDir)
      rw [archived, hput.look _ (hraw (List.prefix_append _ _)), hdraft, Store.top_drop]
      exact look_drop _ _ _ []
    · rw [archived_edited.look, generated, Store.top_put, look_put_elsewhere, h.entered_look_work]
      · rfl
      · exact fun hat => hname (entry_isPrefix_iff.1 hat).symm
      · rintro (hat | hat)
        · exact Below.not_of_entry (by simpa using hdraft) List.prefix_rfl hat
        · exact hraw (List.prefix_append _ _) hat

/-- A release goes on building when its archive has come to where no directory stood. -/
theorem archived_working (harchive : base.top.look (l.archiveAt d) ≠ some .dir) :
    l.Working d base (l.archived d base) where
  plain := (h.generated_plain.drop _ _).put _ l.isName_archive (.file _ _)
  cwd := rfl
  keeps p hp := by
    rw [h.archived_look harchive (h.not_isPrefix (by simp [hp])), hp]
    rintro rfl
    exact harchive hp
  stands := by
    rw [archived_edited.look, h.generated_working.stands]
    rintro (hdraft | ⟨_, -, hat⟩)
    · exact not_inside_self _ hdraft.inside
    · exact not_workAt_of_rawModulesAt ((List.prefix_append _ _).trans hat) List.prefix_rfl

/-- What a release does after its archive is not seen in the release tree until it publishes. -/
theorem furnished_look (harchive : base.top.look (l.archiveAt d) ≠ some .dir)
    (hedited : (l.archived d base).EditedIn (Inside (l.workAt d)) s) (hp : releaseAt d <+: p) :
    s.top.look p = base.top.look p := by
  rw [hedited.look _ fun hinside => not_workAt_of_releaseAt hp hinside.isPrefix,
    h.archived_look harchive (not_workAt_of_releaseAt hp) (archiveAt_ne_of_releaseAt hp)]

end Site

/-- A release whose distributions were built is finished by publishing them. -/
theorem Released.of_finishes (hsite : l.Site d base) (harchive : base.top.look (l.archiveAt d) ≠ some .dir)
    (hedited : (l.archived d base).EditedIn (Inside (l.workAt d)) s)
    (hbuilt : s.top.get? (l.workAt d ++ [Imitation.distName]) = some distributions) (hfinishes : l.Finishes d s t) :
    l.Released d base t := by
  have hkept {p : List Name} (hwork : ¬ l.workAt d <+: p) : s.top.look p = (l.archived d base).top.look p :=
    hedited.look p fun hinside => hwork hinside.isPrefix
  have hdist (rest : List Name) : t.top.look (l.distAt d ++ rest) = distributions.look rest := by
    rw [hfinishes.dist, look_append]
    exact congrArg (·.bind (·.look rest)) hbuilt
  have hfile := hkept (p := l.archiveAt d) not_workAt_isPrefix_archiveAt
  rw [hsite.archived_look_archive] at hfile
  constructor
  case plain => exact Store.AltersIn.plain hfinishes.adds
  case cwd => exact (Store.AltersIn.cwd hfinishes.adds).trans hedited.cwd
  case archive => rw [hfinishes.adds.look_eq not_workAt_isPrefix_archiveAt (by simp [hfile]), hfile]
  case version =>
    have hstands := hdist []
    rw [List.append_nil] at hstands
    exact look_eq_dir_of_below hstands
  case dist => exact hdist
  case cleared => exact hfinishes.cleared
  case look =>
    intro p hp
    obtain ⟨hwork, hrest⟩ := not_or.1 hp
    obtain ⟨hne, hpublished⟩ := not_or.1 hrest
    rw [Store.AltersIn.look hfinishes.adds (not_or.2 ⟨hwork, fun hat => hpublished hat.1⟩), hkept hwork,
      hsite.archived_look harchive hwork hne]

end Layout

namespace Job

variable {order : Listing.Order} {j : Job (List Call)} (hj : j.executor = Imitation.executor none order)
  (hconfig : j.config = Config.standard.resolvedAgainst j.layout.root) {d : List Name} {base s : Store}
  (hsite : j.layout.Site d base)

include hj hconfig hsite

/-- From its archive a release comes to its distributions, when there is room for them and its inputs are there. -/
theorem furnish_ends (hs : j.layout.Working d base s)
    (hroom : j.layout.workDir.bytes.length + Imitation.room < Route.lengthLimit) (hinputs : s.HasInputs d)
    (htree : s.top.get? (j.layout.workAt d ++ [outName]) = some tree)
    (hempty : ∀ name, name ≠ outName → s.top.look (j.layout.workAt d ++ [name]) = none) :
    Run.Ends j.furnish s (.ok ()) [.readme j.config j.layout.workDir, .setup j.config .sdist j.layout.workDir,
      .setup j.config .bdistWheel j.layout.workDir] fun t => t.top.Plain ∧
        s.EditedIn (Inside (j.layout.workAt d)) t ∧
        t.top.get? (j.layout.workAt d ++ [distName]) = some distributions := by
  have hhouse := hs.houses hsite hroom (by decide)
  have hsupplied := hs.supplied hsite hconfig hroom hinputs
  have hentries : ∀ x ∈ entryNames, x ≠ outName := by decide
  -- the generated entries
  obtain ⟨t₁, hpromoted, hedited₁, -, -⟩ := Staging.promoteGenerated_moves hhouse (by decide) htree
    fun x hx => hempty x (hentries x hx)
  have hplain₁ := (Staging.promoteGenerated_promotes j.executor.order (w := j.layout.workDir) hs.plain).alters.plain
  rw [hpromoted] at hplain₁
  have hhouse₁ := hhouse.after_below hedited₁
  have hinside₁ := hedited₁.mono fun _ hp => hp.inside
  -- the metadata
  have hapart : ∀ name ∈ Staging.writtenNames, Bytes.ofString name ∉ outName :: entryNames := by decide
  have hwritable₁ (name : String) (hname : name ∈ Staging.writtenNames) :
      t₁.top.Writable (j.layout.workAt d ++ [Bytes.ofString name]) := by
    have hnot := hapart name hname
    refine .inl ?_
    rw [hedited₁.look_entry hnot [], hempty]
    exact fun heq => hnot (by simp [heq])
  have hsupplied₁ := hsupplied.after hinside₁
  obtain ⟨t₂, hcopied, hedited₂, -⟩ := Staging.copyEach_copies (c := j.config) Config.metadataNames hhouse₁
    (by decide) hsupplied₁.metadata fun name hname => hwritable₁ name (List.mem_append_left _ hname)
  have hplain₂ := (Staging.copyMetadata_alters (w := j.layout.workDir) hplain₁ j.config).plain
  rw [Staging.copyMetadata, hcopied] at hplain₂
  have hhouse₂ := hhouse₁.after_below hedited₂
  have hinside₂ := hinside₁.trans (hedited₂.mono fun _ hp => hp.inside)
  -- the readme
  obtain ⟨q, text, hreadme, hname, htext, hsupply⟩ := (hsupplied.after hinside₂).readme
  have hover₂ : t₂.top.Writable (j.layout.workAt d ++ [Bytes.ofString Call.convertedReadme]) := by
    rw [Writable, hedited₂.look_entry (by decide) []]
    exact hwritable₁ _ (by decide)
  have hconvert := Staging.convertReadme_ends order hhouse₂ (by decide) hreadme hname htext hsupply hover₂
  rw [furnish]
  refine .ofWork_bind hpromoted (.ofWork_bind hcopied (.progress_bind _ _ ?_))
  rw [hj]
  refine hconvert.bind fun t₃ h₃ => ?_
  obtain ⟨hedited₃, -, hplain₃⟩ := h₃
  -- the distributions
  have hnone : t₃.top.look (j.layout.workAt d ++ [distName]) = none := by
    rw [hedited₃.look_entry (by decide) [], hedited₂.look_entry (by decide) [], hedited₁.look_entry (by decide) [],
      hempty _ (by decide)]
  refine (runSetup_builds hj (hhouse₂.after_below hedited₃) (by decide) hnone).imp fun t ht => ?_
  obtain ⟨hedited, hdist, hplain⟩ := ht
  have hinside₃ := hinside₂.trans (hedited₃.mono fun _ hp => hp.inside)
  exact ⟨hplain (hplain₃ hplain₂), hinside₃.trans (hedited.mono fun _ hp => hp.inside), hdist⟩

variable {u v : Session (List Call)} (hu : u.store = j.layout.entered d base)

include hu

/-- Where everything is ready for it a release is made. -/
theorem buildAndPublish_of_releasable (h : j.layout.Releasable d base) :
    ∃ v, j.buildAndPublish u =
        (.ok ⟨j.layout.archivePath, some (j.layout.versionReleaseDir / Layout.distName)⟩, v) ∧
      j.layout.Released d base v.store := by
  obtain ⟨t, hproduced, ht⟩ := produce_archives hj hsite hu h.fits h.short h.archive
  have hworking := hsite.archived_working h.archive
  obtain ⟨htree, hempty⟩ := hsite.archived_work
  have hinputs : (j.layout.archived d base).HasInputs d :=
    h.inputs.of_look fun p hp => hsite.archived_look_input h.archive hp
  obtain ⟨t', hfurnished, -, hplain, hedited, hdist⟩ :=
    furnish_ends hj hconfig hsite hworking h.room hinputs htree hempty t ht
  have hbuilt : j.build j.layout.workDir u = (.ok j.layout.archivePath, t') := by
    rw [build_eq, bind_of_ok _ hproduced, bind_of_ok _ hfurnished]
    rfl
  have hpublishable : j.layout.Publishable d t'.store := by
    refine ⟨look_eq_dir.2 ⟨_, hdist⟩, ?_, ?_⟩
    · rw [hsite.furnished_look h.archive hedited Layout.releaseAt_isPrefix_versionAt]
      exact h.version
    · rw [hsite.furnished_look h.archive hedited Layout.releaseAt_isPrefix_distAt, h.free]
  have hworking' := hworking.editedIn hsite hedited hplain
  obtain ⟨hnot, -⟩ | ⟨-, v, hpublished, hfinishes⟩ := publish_cases hsite hworking' h.fits
  · exact absurd hpublishable hnot
  refine ⟨v, ?_, .of_finishes hsite h.archive hedited hdist hfinishes⟩
  rw [buildAndPublish, bind_of_ok _ hbuilt, bind_of_ok _ hpublished]
  rfl

omit hu in
/-- A release that has come from its archive to its distributions had its inputs, and room. -/
theorem of_furnish_eq_ok (hs : j.layout.Working d base u.store) (h : j.furnish u = (.ok (), v)) :
    u.store.HasInputs d ∧ j.layout.workDir.bytes.length + Imitation.room < Route.lengthLimit := by
  obtain ⟨_, s₁, hpromote, h⟩ := bind_eq_ok.1 h
  obtain ⟨_, s₂, hcopy, h⟩ := bind_eq_ok.1 h
  obtain ⟨_, s₃, hsay, h⟩ := bind_eq_ok.1 h
  obtain ⟨_, s₄, hconvert, hsetup⟩ := bind_eq_ok.1 h
  have hroot := hs.spelled hsite
  have hsource : IsName (Bytes.ofString "src") := by decide
  have hscripts : j.config.scriptDir = j.layout.root / "src" := by rw [hconfig]; rfl
  have hreadme : j.config.readme = j.layout.root / "README.md" := by rw [hconfig]; rfl
  -- until the setup script is called only the inside of the working directory has changed
  have hpromotes := (Staging.promoteGenerated_promotes j.executor.order (w := j.layout.workDir) hs.plain).alters
  rw [(ofWork_eq_ok hpromote).1, Layout.spelled_workDir, hroot] at hpromotes
  have hcopies := Staging.copyMetadata_alters (w := j.layout.workDir) hpromotes.plain j.config
  rw [(ofWork_eq_ok hcopy).1, Layout.spelled_workDir, hpromotes.spelled, hroot] at hcopies
  refine ⟨⟨fun name hname => ?_, ?_⟩, ?_⟩
  · have hspelled : s₁.store.spelled j.config.scriptDir = d ++ [Bytes.ofString "src"] := by
      rw [hpromotes.spelled, hscripts, Store.spelled_div hsource, hroot]
    have hne : s₁.store.spelled j.config.scriptDir ≠ s₁.store.spelled j.layout.workDir := by
      rw [hspelled, hpromotes.spelled, Layout.spelled_workDir, hroot]
      intro heq
      have hsame : Bytes.ofString "src" = Bytes.ofString ("tmp-" ++ j.layout.version.text) :=
        List.singleton_inj.1 (List.append_cancel_left heq)
      exact absurd (hsame ▸ Layout.mem_outputNames_work j.layout.version) (by decide)
    have hfile := Staging.copyEach_eq_ok hpromotes.plain Staging.isName_metadata hne (ofWork_eq_ok hcopy).1 name hname
    have hapart : ¬ Inside (j.layout.workAt d) (d ++ [Bytes.ofString "src"] ++ [Bytes.ofString name]) :=
      Layout.not_inside_workAt (by decide) (List.prefix_append _ _)
    rwa [hspelled, hpromotes.look hapart] at hfile
  · obtain ⟨_, s₅, hrequire, -⟩ := bind_eq_ok.1 hconvert
    obtain ⟨hfound, -⟩ := require_eq_ok.1 (ofWork_eq_ok hrequire).1
    rw [(Run.progress_eq_ok hsay).1, hreadme] at hfound
    obtain ⟨-, -, hfile⟩ := Store.finds_of_isFile (by decide) hcopies.plain.linkFree hfound
    have hapart : ¬ Inside (j.layout.workAt d) (d ++ [Bytes.ofString "README.md"]) :=
      Layout.not_inside_workAt (by decide) List.prefix_rfl
    rw [hcopies.spelled, hpromotes.spelled, hroot, hcopies.look, hpromotes.look hapart] at hfile
    · exact hfile
    · rintro ⟨name, -, heq⟩
      exact hapart ⟨_, [], heq⟩
  · rw [SetupCommand.forRelease] at hsetup
    obtain ⟨_, s₅, -, hsetup⟩ := bind_eq_ok.1 hsetup
    obtain ⟨_, s₆, -, hsetup⟩ := bind_eq_ok.1 hsetup
    obtain ⟨_, s₇, -, hsetup⟩ := bind_eq_ok.1 hsetup
    obtain ⟨_, s₈, hcall, -⟩ := bind_eq_ok.1 hsetup
    rw [hj] at hcall
    have hwritten := Imitation.of_callChecked_eq_ok hcall
    rw [Imitation.effect_bdistWheel] at hwritten
    exact Imitation.room_of_writeDist (Layout.isName_work j.layout.version) hwritten

/-- A release that was made had everything ready for it. -/
theorem releasable_of_buildAndPublish {outcome : Outcome} (h : j.buildAndPublish u = (.ok outcome, v)) :
    j.layout.Releasable d base := by
  obtain ⟨path, t', hbuild, hpublish⟩ := bind_eq_ok.1 h
  rw [build_eq] at hbuild
  obtain ⟨_, t, hproduce, hbuild⟩ := bind_eq_ok.1 hbuild
  obtain ⟨_, t'', hfurnish, hpure⟩ := bind_eq_ok.1 hbuild
  obtain ⟨-, rfl⟩ := outcome_inj.1 hpure
  obtain ⟨dist, w, hpublish, -⟩ := bind_eq_ok.1 hpublish
  obtain ⟨hfits, hshort, harchive⟩ := of_produce_eq_ok hj hsite hu hproduce
  obtain ⟨t', hproduced, ht⟩ := produce_archives hj hsite hu hfits hshort harchive
  obtain rfl := (outcome_inj.1 (hproduced.symm.trans hproduce)).2
  have hworking := hsite.archived_working harchive
  rw [← ht] at hworking
  obtain ⟨hinputs, hroom⟩ := of_furnish_eq_ok hj hconfig hsite hworking hfurnish
  rw [ht] at hinputs
  -- the distributions are the ones that are built where the inputs are there
  obtain ⟨htree, hempty⟩ := hsite.archived_work
  obtain ⟨t₁, hfurnished, -, hplain, hedited, -⟩ :=
    furnish_ends hj hconfig hsite (hsite.archived_working harchive) hroom hinputs htree hempty t' ht
  obtain rfl := (outcome_inj.1 (hfurnished.symm.trans hfurnish)).2
  have hworking' := (hsite.archived_working harchive).editedIn hsite hedited hplain
  obtain ⟨-, failure, t₂, hfailed, -⟩ | ⟨hpublishable, -⟩ := publish_cases hsite hworking' hfits
  · cases (outcome_inj.1 (hfailed.symm.trans hpublish)).1
  have hinputs' : base.HasInputs d := hinputs.of_look fun p hp => (hsite.archived_look_input harchive hp).symm
  refine ⟨hfits, hroom, hshort, hinputs', harchive, ?_, ?_⟩
  · have hversion := hpublishable.version
    rwa [hsite.furnished_look harchive hedited Layout.releaseAt_isPrefix_versionAt] at hversion
  · have hfree := hpublishable.free
    rwa [hsite.furnished_look harchive hedited Layout.releaseAt_isPrefix_distAt] at hfree

end Job

end StubRelease
