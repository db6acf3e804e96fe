/-
# StubRelease.Proofs.Archiving -- writing the archive of a directory

Zipping a directory into a file beside it writes that file and nothing else, whatever comes of it
(`zipDirectory_writes`). When it succeeds the file holds the members of the directory as it stands
(`zipDirectory_eq_ok`), and moving the file then leaves the directory as it was.
-/
import StubRelease.Proofs.Tree.Effects
import StubRelease.Proofs.Unpacking

namespace StubRelease

open Sequence

/-- A directory is found as it was while a file is written beside it. -/
theorem Store.nodeAt_put_beside {s : Store} {w : Path} {source file : String}
    (hsource : IsName (Bytes.ofString source)) (hshort : (Bytes.ofString source).length ≤ Route.nameLimit)
    {d : List Name} (hfinds : s.Finds w source d) (hne : Bytes.ofString source ≠ Bytes.ofString file)
    {entries : List (Name × Node)} (hentries : s.top.get? (d ++ [Bytes.ofString source]) = some (.dir entries))
    (hlink : ∀ target, s.top.look (d ++ [Bytes.ofString file]) ≠ some (.link target))
    (hnot : s.top.look (d ++ [Bytes.ofString file]) ≠ some .dir) (toTarget : Bool) (content : Content)
    (executable : Bool) :
    (s.put d (Bytes.ofString file) (.file content executable)).nodeAt toTarget (w / source).bytes =
      .ok (.dir entries) := by
  obtain ⟨t, ht⟩ : ∃ t, t = s.put d (Bytes.ofString file) (.file content executable) := ⟨_, rfl⟩
  have hkept : t.top.get? (d ++ [Bytes.ofString source]) = some (.dir entries) := by
    rw [ht, Store.top_put, Node.get?_put_elsewhere, hentries]
    · exact not_entry_isPrefix _ _
    · rw [entry_isPrefix_iff]
      exact hne.symm
  have hfinds' : t.Finds w source d := by
    rw [ht]
    exact hfinds.keeps (.put hnot hlink _) rfl
  have hlook := Node.look_eq_dir.2 ⟨entries, hkept⟩
  rw [← ht, Store.nodeAt_div hsource hfinds' hshort (by simp [hlook]), hkept]

namespace Archive

variable {s t : Store} {w : Path} {source file : String}

/-- Zipping a directory into a file beside it writes the file, also when something cannot be added. -/
theorem zipDirectory_of_finds (hsource : IsName (Bytes.ofString source))
    (hfile : IsName (Bytes.ofString file)) (hne : Bytes.ofString source ≠ Bytes.ofString file)
    (rootName : String) {d : List Name} (hfrom : s.Finds w source d)
    (hfromShort : (Bytes.ofString source).length ≤ Route.nameLimit) (hto : s.Finds w file d)
    (htoShort : (Bytes.ofString file).length ≤ Route.nameLimit) {entries : List (Name × Node)}
    (hentries : s.top.get? (d ++ [Bytes.ofString source]) = some (.dir entries))
    (hlink : ∀ target, s.top.look (d ++ [Bytes.ofString file]) ≠ some (.link target))
    (hnot : s.top.look (d ++ [Bytes.ofString file]) ≠ some .dir) :
    ∃ opened : Store,
      let packed := zipNode opened (Bytes.ofString rootName) (w / source).bytes (.dir entries)
      zipDirectory (w / source) rootName (w / file) s =
        (match packed.failure with
          | some failure => .error failure
          | none => .ok ⟨w / file, packed.files⟩,
        s.put d (Bytes.ofString file) (.file (.archive .zip packed.members)
          (Files.executableOf (s.top.get? (d ++ [Bytes.ofString file]))))) := by
  have hdir := Store.isDir_of_look hsource hfrom hfromShort (Node.look_eq_dir.2 ⟨entries, hentries⟩)
  have hrequire : Work.require (·.isDir (w / source).bytes) (.missingInput (w / source)) s = (.ok (), s) :=
    require_eq_ok.2 ⟨hdir, rfl⟩
  obtain ⟨executable, hexecutable⟩ : ∃ executable, executable =
      Files.executableOf (s.top.get? (d ++ [Bytes.ofString file])) := ⟨_, rfl⟩
  have hempty := ofFiles_eq_ok.2 (Files.emptyFile_of_finds hfile hto htoShort hlink hnot)
  rw [← hexecutable] at hempty ⊢
  have hfill (old new : Content) : (s.put d (Bytes.ofString file) (.file old executable)).fill
      (d ++ [Bytes.ofString file]) new = s.put d (Bytes.ofString file) (.file new executable) :=
    Store.fill_put hto.reaches.dir _ _ _ _
  -- while it is written, the archive stands beside the directory as an unfinished file
  obtain ⟨opened, hopened⟩ : ∃ opened, opened = s.put d (Bytes.ofString file) (.file .unfinished executable) :=
    ⟨_, rfl⟩
  have hsame : opened.nodeAt false (w / source).bytes = .ok (.dir entries) := by
    rw [hopened]
    exact Store.nodeAt_put_beside hsource hfromShort hfrom hne hentries hlink hnot false .unfinished executable
  refine ⟨opened, ?_⟩
  rw [zipDirectory, bind_of_ok _ hrequire, bind_of_ok _ hempty]
  simp only [run_bind, run_get, run_modify, whileWriting, hfill, ← hopened, hsame]
  cases (zipNode opened (Bytes.ofString rootName) (w / source).bytes (.dir entries)).failure <;> rfl

/-- The file that a directory is zipped into may be written, or nothing happens. -/
theorem zipDirectory_finds (hs : s.top.LinkFree) (hsource : IsName (Bytes.ofString source))
    (hfile : IsName (Bytes.ofString file)) (rootName : String) :
    (∃ failure, zipDirectory (w / source) rootName (w / file) s = (.error failure, s)) ∨
      s.Finds w source (s.spelled w) ∧ s.Finds w file (s.spelled w) ∧
        (Bytes.ofString source).length ≤ Route.nameLimit ∧ (Bytes.ofString file).length ≤ Route.nameLimit ∧
        (∃ entries, s.top.get? (s.spelled w ++ [Bytes.ofString source]) = some (.dir entries)) ∧
        s.top.look (s.spelled w ++ [Bytes.ofString file]) ≠ some .dir := by
  by_cases hdir : s.isDir (w / source).bytes = true
  · obtain ⟨hfinds, hshort, hlook⟩ := Store.finds_of_isDir hsource hs hdir
    have hrequire : Work.require (·.isDir (w / source).bytes) (.missingInput (w / source)) s =
        (.ok (), s) := require_eq_ok.2 ⟨hdir, rfl⟩
    obtain ⟨fault, hfault⟩ | ⟨d, hto, htoShort, hnot, -⟩ := Files.emptyFile_finds (p := w) hs hfile
    · refine .inl ?_
      rw [zipDirectory, bind_of_ok _ hrequire, run_bind, ofFiles_eq, hfault]
      exact ⟨_, rfl⟩
    · obtain rfl := hto.reaches.eq_spelled hs
      exact .inr ⟨hfinds, hto, hshort, htoShort, Node.look_eq_dir.1 hlook, hnot⟩
  · refine .inl ?_
    rw [zipDirectory, run_bind, require_eq, if_neg hdir]
    exact ⟨_, rfl⟩

/-- What zipping a directory into a file beside it has done when it succeeds. -/
theorem zipDirectory_eq_ok (hs : s.top.LinkFree) (hw : w.isAbsolute = true)
    (hsource : IsName (Bytes.ofString source)) (hfile : IsName (Bytes.ofString file))
    (hne : Bytes.ofString source ≠ Bytes.ofString file) {rootName : String} {summary : ZipSummary}
    (h : zipDirectory (w / source) rootName (w / file) s = (.ok summary, t)) :
    s.Names w file ∧ s.top.look (w.place ++ [Bytes.ofString file]) ≠ some .dir ∧
      summary.path = w / file ∧
      ∃ entries opened executable,
        s.nodeAt false (w / source).bytes = .ok (.dir entries) ∧
        (zipNode opened (Bytes.ofString rootName) (w / source).bytes (.dir entries)).failure = none ∧
        t = s.put w.place (Bytes.ofString file) (.file (.archive .zip
          (zipNode opened (Bytes.ofString rootName) (w / source).bytes (.dir entries)).members)
            executable) := by
  obtain ⟨failure, hfailure⟩ | ⟨hfrom, hto, hfromShort, htoShort, ⟨entries, hentries⟩, hnot⟩ :=
    zipDirectory_finds (w := w) hs hsource hfile rootName
  · rw [hfailure] at h
    cases (outcome_inj.1 h).1
  · obtain ⟨opened, hzip⟩ := zipDirectory_of_finds hsource hfile hne rootName hfrom hfromShort hto htoShort
      hentries (fun target => hs _ target) hnot
    rw [Store.spelled_of_isAbsolute hw] at hzip hentries hnot
    have hnames := (hfrom.names hs hw hfromShort).1
    have hfits := (hto.names hs hw htoShort).1
    rw [hzip, outcome_inj] at h
    obtain ⟨hresult, rfl⟩ := h
    cases hfailure : (zipNode opened (Bytes.ofString rootName) (w / source).bytes
        (.dir entries)).failure with
    | some failure =>
      rw [hfailure] at hresult
      cases hresult
    | none =>
      rw [hfailure] at hresult
      obtain rfl := Except.ok.inj hresult
      exact ⟨hfits, hnot, rfl, entries, opened, _,
        (Store.nodeAt_div_eq_ok hsource hs hw).2 ⟨hnames, hentries⟩, hfailure, rfl⟩

/-- Zipping a directory does nothing, or it leaves a file beside the directory, where no directory stood. -/
theorem zipDirectory_writes (hs : s.top.LinkFree) (hsource : IsName (Bytes.ofString source))
    (hfile : IsName (Bytes.ofString file)) (hne : Bytes.ofString source ≠ Bytes.ofString file)
    (rootName : String) :
    (∃ failure, zipDirectory (w / source) rootName (w / file) s = (.error failure, s)) ∨
      s.Finds w file (s.spelled w) ∧ (Bytes.ofString file).length ≤ Route.nameLimit ∧
        s.top.look (s.spelled w ++ [Bytes.ofString file]) ≠ some .dir ∧
        ∃ content executable,
          (∃ failure, zipDirectory (w / source) rootName (w / file) s =
            (.error failure, s.put (s.spelled w) (Bytes.ofString file) (.file content executable))) ∨
          ∃ files, zipDirectory (w / source) rootName (w / file) s =
            (.ok ⟨w / file, files⟩, s.put (s.spelled w) (Bytes.ofString file) (.file content executable)) := by
  obtain hrefused | ⟨hfrom, hto, hfromShort, htoShort, ⟨entries, hentries⟩, hnot⟩ :=
    zipDirectory_finds (w := w) hs hsource hfile rootName
  · exact .inl hrefused
  · obtain ⟨opened, hzip⟩ := zipDirectory_of_finds hsource hfile hne rootName hfrom hfromShort hto htoShort
      hentries (fun target => hs _ target) hnot
    refine .inr ⟨hto, htoShort, hnot, .archive .zip (zipNode opened (Bytes.ofString rootName)
      (w / source).bytes (.dir entries)).members, Files.executableOf (s.top.get? (s.spelled w ++
        [Bytes.ofString file])), ?_⟩
    rw [hzip]
    cases (zipNode opened (Bytes.ofString rootName) (w / source).bytes (.dir entries)).failure with
    | some failure => exact .inl ⟨failure, rfl⟩
    | none => exact .inr ⟨_, rfl⟩

end Archive

end StubRelease
