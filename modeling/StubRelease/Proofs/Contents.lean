/-
# StubRelease.Proofs.Contents -- what lands in the place of an archive

In any tree, links or not, archiving the generated modules of a working directory packs the directory
`out` as it stands and moves the draft of the archive to the archive's place (`archiveGenerated_lands`).
If the draft's path is a link, it is the link that is moved, and the archive is wherever that leads.
-/
import StubRelease.Pipeline
import StubRelease.Proofs.Layout
import StubRelease.Proofs.Members
import StubRelease.Proofs.Tree.Opening

namespace StubRelease

open Sequence Node

/-! ## Directories behind links -/

namespace Store

variable {s t : Store} {p : Path} {text : String}

/-- A path at which a directory is found leads to one. -/
theorem reaches_of_isDir (hname : IsName (Bytes.ofString text)) (h : s.isDir (p / text).bytes = true) :
    (0 : UInt8) ∉ p.bytes ∧ (p / text).bytes.length < Route.lengthLimit ∧ ∃ d, s.Reaches (p / text) d := by
  cases hread : Route.read (p / text).bytes with
  | error fault => simp [isDir, nodeAt, placeOf, locate, hread] at h
  | ok r =>
    obtain ⟨hnul, hfits, rfl⟩ := read_div_eq_ok hname hread
    refine ⟨hnul, hfits, ?_⟩
    rw [isDir, nodeAt, placeOf, locate, hread] at h
    cases hwalk : s.follow true (Route.ofBytes (p / text).bytes) with
    | error e => simp [hwalk] at h
    | ok spot =>
      cases spot with
      | free _ _ => simp [hwalk] at h
      | taken goal =>
        cases hnode : s.top.get? goal with
        | none => simp [hwalk, hnode] at h
        | some node =>
          cases node with
          | file _ _ => simp [hwalk, hnode, Node.isDir] at h
          | link _ => simp [hwalk, hnode, Node.isDir] at h
          | dir entries =>
            exact ⟨goal, (reaches_div_iff hname).2 ⟨hwalk, look_eq_dir.2 ⟨entries, hnode⟩⟩⟩

theorem nodeAt_of_reaches (hname : IsName (Bytes.ofString text)) (hnul : (0 : UInt8) ∉ p.bytes)
    (hfits : (p / text).bytes.length < Route.lengthLimit) {d : List Name} (h : s.Reaches (p / text) d) :
    ∃ entries, s.nodeAt true (p / text).bytes = .ok (.dir entries) := by
  obtain ⟨entries, hentries⟩ := look_eq_dir.1 h.dir
  refine ⟨entries, ?_⟩
  rw [nodeAt, placeOf_div hname hnul hfits h]
  simp [hentries]

end Store

namespace Archive

variable {s t : Store}

/-- What zipping has done when it succeeds, whatever its paths lead through. -/
theorem zipDirectory_packs {source output : Path} {rootName : String} {summary : ZipSummary}
    (h : zipDirectory source rootName output s = (.ok summary, t)) :
    s.isDir source.bytes = true ∧ summary.path = output ∧ ∃ place opened node,
      Files.emptyFile output.bytes s = (.ok place, opened) ∧
      (whileWriting opened place).nodeAt false source.bytes = .ok node ∧
      (zipNode (whileWriting opened place) (Bytes.ofString rootName) source.bytes node).failure = none ∧
      t = opened.fill place
        (.archive .zip (zipNode (whileWriting opened place) (Bytes.ofString rootName) source.bytes node).members) := by
  obtain ⟨_, s₁, hrequire, hrest⟩ := bind_eq_ok.1 h
  obtain ⟨hdir, rfl⟩ := require_eq_ok.1 hrequire
  obtain ⟨place, opened, hopen, hrest⟩ := bind_eq_ok.1 hrest
  rw [ofFiles_eq_ok] at hopen
  simp only [run_bind, run_get, run_modify] at hrest
  cases hnode : (whileWriting opened place).nodeAt false source.bytes with
  | error fault =>
    rw [hnode] at hrest
    cases (outcome_inj.1 hrest).1
  | ok node =>
    simp only [hnode] at hrest
    cases hfailure : (zipNode (whileWriting opened place) (Bytes.ofString rootName) source.bytes node).failure with
    | some failure =>
      rw [hfailure] at hrest
      cases (outcome_inj.1 hrest).1
    | none =>
      rw [hfailure] at hrest
      obtain ⟨hsummary, rfl⟩ := outcome_inj.1 hrest
      obtain rfl := Except.ok.inj hsummary
      exact ⟨hdir, rfl, place, opened, node, hopen, hnode, hfailure, rfl⟩

/-- A directory that was found and packed stands at its path itself: a link to one cannot be packed. -/
theorem dir_of_packed {w : Path} {source : String} (hsource : IsName (Bytes.ofString source))
    {opened : Store} (hways : s.top.SameWays opened.top) (hcwd : opened.cwd = s.cwd)
    (hdir : s.isDir (w / source).bytes = true) {d : List Name} (hw : s.Reaches w d)
    (hshort : (Bytes.ofString source).length ≤ Route.nameLimit) {node : Node} {name : Bytes}
    (hnode : opened.nodeAt false (w / source).bytes = .ok node)
    (hok : (zipNode opened name (w / source).bytes node).failure = none) :
    ∃ entries, node = .dir entries ∧
      opened.top.get? (d ++ [Bytes.ofString source]) = some (.dir entries) := by
  obtain ⟨hnul, hfits, goal, hgoal⟩ := Store.reaches_of_isDir hsource hdir
  have hfinds : opened.Finds w source d := ⟨hw.keeps hways.there hcwd, hnul, hfits⟩
  have hgoal' := hgoal.keeps hways.there hcwd
  have hfound := hnode
  rw [Store.nodeAt_div hsource hfinds hshort (by simp)] at hfound
  cases hget : opened.top.get? (d ++ [Bytes.ofString source]) with
  | none =>
    rw [hget] at hfound
    cases hfound
  | some other =>
    rw [hget] at hfound
    obtain rfl := Except.ok.inj hfound
    cases other with
    | dir entries => exact ⟨entries, rfl, rfl⟩
    | file content executable =>
      have hlook := look_eq_file.2 hget
      have hnolink : true = true → ∀ target,
          opened.top.look (d ++ [Bytes.ofString source]) ≠ some (.link target) := by simp [hlook]
      have hfollow := Store.follow_div hsource hfinds.reaches hshort hnolink
      rw [((Store.reaches_div_iff hsource).1 hgoal').1, hlook] at hfollow
      cases hfollow
      exact absurd hgoal'.dir (by simp [hlook])
    | link target =>
      obtain ⟨entries, hentries⟩ := Store.nodeAt_of_reaches hsource hnul hfits hgoal'
      simp [zipNode, contentAt, hentries] at hok

end Archive

/-- What goes into the archive of a generated tree. -/
def Layout.packed (l : Layout) (opened : Store) (w : Path) (tree : Node) : Archive.Packed :=
  Archive.zipNode opened (Bytes.ofString l.archiveRootName) (w / generatedName).bytes tree

/-- The tree while the draft of the archive is written in a directory. -/
def Layout.drafting (l : Layout) (s : Store) (d : List Name) (executable : Bool) : Store :=
  s.put d (Bytes.ofString l.archiveFileName) (.file .unfinished executable)

/-- A draft of the archive that is written where no link stands: the directory `out`, as it stood, is in it, and
nothing else has changed. -/
theorem Layout.draft_written {l : Layout} {w : Path} {d : List Name} {s t : Store} {summary : Archive.ZipSummary}
    (hw : s.Reaches w d)
    (hlink : ∀ target, s.top.look (d ++ [Bytes.ofString l.archiveFileName]) ≠ some (.link target))
    (h : Archive.zipDirectory (Staging.generatedDir w) l.archiveRootName (l.draftArchivePath w) s =
      (.ok summary, t)) :
    s.top.look (d ++ [Bytes.ofString l.archiveFileName]) ≠ some .dir ∧ ∃ entries executable,
      s.top.get? (d ++ [Bytes.ofString generatedName]) = some (.dir entries) ∧
      (l.packed (l.drafting s d executable) w (.dir entries)).failure = none ∧
      t = s.put d (Bytes.ofString l.archiveFileName)
        (.file (.archive .zip (l.packed (l.drafting s d executable) w (.dir entries)).members) executable) := by
  obtain ⟨hdir, -, place, opened, node, hopen, hnode, hok, rfl⟩ := Archive.zipDirectory_packs h
  obtain ⟨hways, hcwd⟩ := Files.emptyFile_ways hopen
  obtain ⟨hways', hcwd'⟩ := opened.fill_ways place .unfinished
  obtain ⟨e, he, -, hentry⟩ := Files.emptyFile_entry l.isName_archive hopen
  obtain rfl := he.reaches.unique hw
  obtain ⟨rfl, hnot, hopened⟩ := hentry hlink
  obtain ⟨entries, rfl, hentries⟩ := Archive.dir_of_packed isName_generated (hways.trans hways') (hcwd'.trans hcwd)
    hdir hw (by decide) hnode hok
  -- the opened file is filled where it was put
  have hfill (content : Content) : opened.fill (e ++ [Bytes.ofString l.archiveFileName]) content =
      s.put e (Bytes.ofString l.archiveFileName)
        (.file content (Files.executableOf (s.top.get? (e ++ [Bytes.ofString l.archiveFileName])))) := by
    rw [hopened]
    exact Store.fill_put hw.dir _ _ _ _
  have hdiffer : Bytes.ofString l.archiveFileName ≠ Bytes.ofString generatedName := l.archive_ne (by decide)
  rw [hfill, Store.top_put, get?_put_elsewhere _ _ (not_entry_isPrefix _ _)
    (by rwa [entry_isPrefix_iff])] at hentries
  simp only [Archive.whileWriting, hfill] at hok ⊢
  exact ⟨hnot, entries, _, hentries, hok, rfl⟩

namespace Job

variable {σ : Type} {j : Job σ} {s t : Session σ}

/-- What archiving has done when it succeeds: the archive of the generated directory, as it stands, is at
the archive's place, unless the draft's path is a link. -/
theorem archiveGenerated_lands {w : Path} {d : List Name} (hw : s.store.Reaches w d) {a : Unit}
    (h : j.archiveGenerated w s = (.ok a, t)) :
    ∃ q, s.store.place j.layout.archivePath.bytes =
        .ok ⟨q, .name (Bytes.ofString j.layout.archiveFileName), false⟩ ∧
      ((∃ target, s.store.top.look (d ++ [Bytes.ofString j.layout.archiveFileName]) =
            some (.link target) ∧
          t.store.top.look (q ++ [Bytes.ofString j.layout.archiveFileName]) = some (.link target)) ∨
        ∃ entries executable,
          let packed := j.layout.packed (j.layout.drafting s.store d executable) w (.dir entries)
          s.store.top.get? (d ++ [Bytes.ofString Layout.generatedName]) = some (.dir entries) ∧
          packed.failure = none ∧
          t.store.top.get? (q ++ [Bytes.ofString j.layout.archiveFileName]) =
            some (.file (.archive .zip packed.members) executable)) := by
  have hfile := j.layout.isName_archive
  obtain ⟨summary, u, hzip, hrename⟩ := bind_eq_ok.1 h
  obtain ⟨hzipped, -⟩ := ofWork_eq_ok hzip
  obtain ⟨hdir, hpath, place, opened, node, hopen, hnode, hok, hstore⟩ := Archive.zipDirectory_packs hzipped
  obtain ⟨hmoved, -⟩ := ofWork_eq_ok hrename
  rw [ofFiles_eq_ok, hpath] at hmoved
  -- nothing but files has changed when the draft is moved
  obtain ⟨hways, hcwd⟩ := Files.emptyFile_ways hopen
  obtain ⟨hways', hcwd'⟩ := opened.fill_ways place (.archive .zip
    (j.layout.packed (Archive.whileWriting opened place) w node).members)
  have hall : s.store.top.SameWays u.store.top := by
    rw [hstore]
    exact hways.trans hways'
  have hallcwd : u.store.cwd = s.store.cwd := by
    rw [hstore]
    exact hcwd'.trans hcwd
  obtain ⟨d₁, a₁, asDir, q, b, bsDir, moved, hsource, hdest, hfound, hlands⟩ := Files.rename_lands hmoved
  obtain ⟨q', hq, heq⟩ := (Store.place_div_eq_ok hfile).1 hdest
  cases heq
  obtain ⟨d₂, hd₂, heq⟩ := (Store.place_div_eq_ok hfile).1 hsource
  cases heq
  obtain rfl := hd₂.reaches.unique (hw.keeps hall.there hallcwd)
  refine ⟨q, (Store.place_div_eq_ok hfile).2 ⟨q, hq.keeps hall.back hallcwd.symm, rfl⟩, ?_⟩
  by_cases hlink : ∃ target, s.store.top.look (d₁ ++ [Bytes.ofString j.layout.archiveFileName]) =
      some (.link target)
  · obtain ⟨target, hlink⟩ := hlink
    refine .inl ⟨target, hlink, look_eq_link.2 ?_⟩
    rw [hlands, ← hfound, look_eq_link.1 (hall.there.links _ target hlink)]
  · obtain ⟨-, entries, executable, hentries, hok, hwritten⟩ :=
      Layout.draft_written hw (fun target h => hlink ⟨target, h⟩) hzipped
    refine .inr ⟨entries, executable, hentries, hok, ?_⟩
    rw [hlands, ← hfound, hwritten, Store.top_put, get?_put_self hw.dir]

end Job

end StubRelease
