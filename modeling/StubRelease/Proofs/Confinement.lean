/-
# StubRelease.Proofs.Confinement -- where a layout's paths lie

Paths are compared by their components, so two spellings of one path count as one. An entry's path has one
component more than its directory's (`components_div`), whatever the directory's path looks like. Main statement:
the paths of a layout lie right below the root or below one of its two output directories and differ from each
other, and those of two layouts agree only where they have to (`layouts_keep_apart`).
-/
import StubRelease.Config
import StubRelease.Proofs.Layout
import StubRelease.Tool.Call

namespace StubRelease

/-! ## Components of an entry's path -/

namespace Path

variable {p q : Path} {text other : String}

theorem components_of_pieces {first : List Char} {more : List (List Char)}
    (h : pieces (· == '/') p.text.toList = first :: more) :
    p.components = (if p.isAbsolute then [.root] else (component? true first).toList) ++
      more.filterMap (component? false) := by
  rw [components, h]

/-- What stands after a slash adds its components to those of what stands before it. -/
theorem components_append_slash {front back : List Char} (hp : p.text.toList = front ++ '/' :: back)
    (hq : q.text.toList = front ++ ['/']) :
    p.components = q.components ++ (pieces (· == '/') back).filterMap (component? false) := by
  obtain ⟨first, more, hfront⟩ := List.exists_cons_of_ne_nil (pieces_ne_nil (· == '/') front)
  have hpieces (rest : List Char) : pieces (· == '/') (front ++ '/' :: rest) =
      first :: (more ++ pieces (· == '/') rest) := by
    rw [pieces_append_cons (by decide), hfront, List.cons_append]
  have habs : p.isAbsolute = q.isAbsolute := by
    rw [isAbsolute, isAbsolute, hp, hq]
    cases front <;> rfl
  rw [components_of_pieces (hp ▸ hpieces back), components_of_pieces (hq ▸ hpieces []), habs]
  simp [pieces, component?]

/-- A slash at the end adds nothing to the components of a path. -/
theorem components_concat_slash (hp : p.text.toList = q.text.toList ++ ['/']) (hq : q.text ≠ "") :
    p.components = q.components := by
  obtain ⟨first, more, hpieces⟩ := List.exists_cons_of_ne_nil (pieces_ne_nil (· == '/') q.text.toList)
  have hpieces' : pieces (· == '/') p.text.toList = first :: (more ++ [[]]) := by
    rw [hp, pieces_append_cons (by decide), hpieces]
    rfl
  have habs : p.isAbsolute = q.isAbsolute := by
    rw [isAbsolute, isAbsolute, hp]
    cases hchars : q.text.toList with
    | nil => exact absurd (String.toList_eq_nil_iff.1 hchars) hq
    | cons _ _ => rfl
  rw [components_of_pieces hpieces', components_of_pieces hpieces, habs]
  simp [component?]

/-- No slash is among the characters of a name. -/
theorem slash_notMem_of_isName (hname : IsName (Bytes.ofString text)) : '/' ∉ text.toList := by
  intro hmem
  obtain ⟨front, back, hsplit⟩ := List.append_of_mem hmem
  refine hname.no_slash ?_
  rw [← String.ofList_toList (s := text), hsplit, String.ofList_append, Bytes.ofString_append,
    Bytes.ofString_ofList_cons, Bytes.ofString_slash]
  simp

theorem pieces_text_of_isName (hname : IsName (Bytes.ofString text)) :
    pieces (· == '/') text.toList = [text.toList] := by
  refine pieces_of_forall fun c hc => ?_
  rw [beq_eq_false_iff_ne]
  rintro rfl
  exact slash_notMem_of_isName hname hc

/-- A name is one component, at the front of a path or not. -/
theorem component?_of_isName (hname : IsName (Bytes.ofString text)) (leading : Bool) :
    component? leading text.toList = some (.name text) := by
  have hne {cs : List Char} (hcs : Bytes.ofString (String.ofList cs) ≠ Bytes.ofString text) : text.toList ≠ cs := by
    rintro rfl
    exact hcs (by rw [String.ofList_toList])
  rw [component?, String.ofList_toList]
  · exact hne fun heq => hname.ne_nil (heq.symm.trans (by decide))
  · exact hne fun heq => hname.ne_here (heq.symm.trans (by decide))
  · exact hne fun heq => hname.ne_up (heq.symm.trans (by decide))

/-- A name by itself is a path of one component. -/
theorem components_of_isName (hname : IsName (Bytes.ofString text)) : components ⟨text⟩ = [.name text] := by
  rw [components_of_pieces (p := ⟨text⟩) (pieces_text_of_isName hname), isAbsolute_of_isName hname,
    component?_of_isName hname]
  rfl

/-- The path of an entry has the components of the directory's path, and the entry's name. -/
theorem components_div (hname : IsName (Bytes.ofString text)) : (p / text).components = p.components ++ [.name text] := by
  have hback : (pieces (· == '/') text.toList).filterMap (component? false) = [.name text] := by
    rw [pieces_text_of_isName hname, List.filterMap_cons, component?_of_isName hname, List.filterMap_nil]
  rw [div_eq, join, isAbsolute_of_isName hname, if_neg Bool.false_ne_true]
  cases hlast : p.text.toList.getLast? with
  | none =>
    -- nothing is put in front of the name
    have hempty : p.text = "" := String.toList_eq_nil_iff.1 (List.getLast?_eq_none_iff.1 hlast)
    have hhere : p.components = [] := by simp [components, hempty, pieces, component?, isAbsolute]
    have hslash : p.needsSlash = false := by rw [needsSlash, hlast]
    rw [hhere, if_neg (by simp [hslash]), hempty, String.empty_append, components_of_isName hname, List.nil_append]
  | some c =>
    by_cases hc : c = '/'
    · subst hc
      have hslash : p.needsSlash = false := by
        rw [needsSlash, hlast]
        rfl
      obtain ⟨front, hfront⟩ := List.getLast?_eq_some_iff.1 hlast
      rw [if_neg (by simp [hslash]), ← hback]
      exact components_append_slash (by simp [hfront]) hfront
    · have hslash : p.needsSlash = true := by
        rw [needsSlash, hlast]
        simpa using hc
      have hne : p.text ≠ "" := by
        intro hempty
        simp [hempty] at hlast
      have hslashed : (p.text ++ "/").toList = p.text.toList ++ ['/'] := by simp
      have htext : (p.text ++ "/" ++ text).toList = p.text.toList ++ '/' :: text.toList := by simp
      rw [if_pos hslash, ← hback, ← components_concat_slash (p := ⟨p.text ++ "/"⟩) hslashed hne]
      exact components_append_slash htext hslashed

theorem sameAs_iff : p.sameAs q = true ↔ p.components = q.components := beq_iff_eq

/-- Entries of one directory have the same path only if they have the same name. -/
theorem sameAs_div_iff (hname : IsName (Bytes.ofString text)) (hother : IsName (Bytes.ofString other)) :
    (p / text).sameAs (q / other) = true ↔ p.components = q.components ∧ text = other := by
  rw [sameAs_iff, components_div hname, components_div hother]
  constructor
  · intro h
    obtain ⟨hfront, hlast⟩ := List.append_inj' h rfl
    exact ⟨hfront, Component.name.inj (List.singleton_inj.1 hlast)⟩
  · rintro ⟨hfront, rfl⟩
    rw [hfront]

/-- An entry right below a directory, by the components of both paths. -/
def IsEntryOf (p q : Path) : Prop := ∃ name, p.components = q.components ++ [.name name]

theorem isEntryOf_div (hname : IsName (Bytes.ofString text)) : (p / text).IsEntryOf p := ⟨text, components_div hname⟩

end Path

/-! ## One layout -/

namespace Layout

/-- What a run keeps in its working directory beside the draft of the archive. -/
def workNames : List String := [generatedName, distName, Call.convertedReadme] ++ Config.metadataNames

theorem isName_workNames : ∀ name ∈ workNames, IsName (Bytes.ofString name) := by decide

/-- The paths of a layout lie below its root, and no two of them are the same. -/
structure Confined (l : Layout) : Prop where
  workDir : l.workDir.IsEntryOf l.root
  rawModulesDir : l.rawModulesDir.IsEntryOf l.root
  releaseDir : l.releaseDir.IsEntryOf l.root
  dirs : [l.workDir, l.rawModulesDir, l.releaseDir].Pairwise fun p q => p.sameAs q = false
  archiveName : Path.components ⟨l.archiveFileName⟩ = [.name l.archiveFileName]
  archivePath : l.archivePath.components = l.rawModulesDir.components ++ [.name l.archiveFileName]
  versionReleaseDir : l.versionReleaseDir.IsEntryOf l.releaseDir
  draft : ∀ name ∈ workNames, (l.draftArchivePath l.workDir).sameAs (l.workDir / name) = false

/-- Two entries of a directory have different paths. -/
theorem sameAs_div_eq_false {p : Path} {text other : String} (hname : IsName (Bytes.ofString text))
    (hother : IsName (Bytes.ofString other)) (hne : Bytes.ofString text ≠ Bytes.ofString other) :
    (p / text).sameAs (p / other) = false := by
  rw [← Bool.not_eq_true, Path.sameAs_div_iff hname hother]
  rintro ⟨-, rfl⟩
  exact hne rfl

theorem confined (l : Layout) : l.Confined where
  workDir := Path.isEntryOf_div (isName_work l.version)
  rawModulesDir := Path.isEntryOf_div isName_rawModules
  releaseDir := Path.isEntryOf_div isName_release
  dirs := by
    have hraw := sameAs_div_eq_false (p := l.root) (isName_work l.version) isName_rawModules (work_ne_rawModules _)
    have hrelease := sameAs_div_eq_false (p := l.root) (isName_work l.version) isName_release (work_ne_release _)
    have hboth := sameAs_div_eq_false (p := l.root) isName_rawModules isName_release rawModules_ne_release
    simp [workDir, rawModulesDir, releaseDir, hraw, hrelease, hboth]
  archiveName := Path.components_of_isName l.isName_archive
  archivePath := Path.components_div l.isName_archive
  versionReleaseDir := Path.isEntryOf_div (isName_version l.version)
  draft name hname := by
    have hshort : ∀ other ∈ workNames, (Bytes.ofString other).length ≤ 22 := by decide
    exact sameAs_div_eq_false l.isName_archive (isName_workNames name hname) (l.archive_ne (hshort name hname))

/-! ## Two layouts -/

/-- The paths of a layout are confined, and those of two layouts with one root agree where version and label do, for the
archives, or where the version does, for the directories. -/
theorem layouts_keep_apart (root : Path) (v w : Version) (k l : Label) :
    let a : Layout := ⟨root, v, k⟩
    let b : Layout := ⟨root, w, l⟩
    (a.archivePath.sameAs b.archivePath = true ↔ v = w ∧ k = l) ∧
      (a.workDir.sameAs b.workDir = true ↔ v = w) ∧
      (a.versionReleaseDir.sameAs b.versionReleaseDir = true ↔ v = w) ∧ a.Confined := by
  intro a b
  have hnames : a.archiveFileName = b.archiveFileName ↔ v = w ∧ k = l :=
    ⟨fun h => archiveFileName_inj.1 (congrArg _ h), fun h => Bytes.ofString_injective (archiveFileName_inj.2 h)⟩
  have hversions : v.text = w.text ↔ v = w := ⟨Version.text_injective, congrArg _⟩
  refine ⟨?_, ?_, ?_, a.confined⟩
  · rw [archivePath, archivePath, Path.sameAs_div_iff a.isName_archive b.isName_archive, hnames]
    exact and_iff_right rfl
  · rw [workDir, workDir, Path.sameAs_div_iff (isName_work v) (isName_work w), work_inj]
    exact and_iff_right rfl
  · rw [versionReleaseDir, versionReleaseDir, Path.sameAs_div_iff (isName_version v) (isName_version w), hversions]
    exact and_iff_right rfl

end Layout

end StubRelease
