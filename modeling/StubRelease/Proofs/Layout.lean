/-
# StubRelease.Proofs.Layout -- the names of a layout

Every path of a layout is a directory's path with one name after it. Main statement: each of these names
is a step of a path, whatever the version and the label are (`isName_archive` for the one that holds a
label), and the names of one directory differ.
-/
import StubRelease.Layout
import StubRelease.Proofs.Tree.Changes
import StubRelease.Proofs.Tree.Ways

namespace StubRelease

open Route (slashByte)

/-! ## Bytes of a label -/

namespace Bytes

theorem length_ofString_append (s t : String) :
    (ofString (s ++ t)).length = (ofString s).length + (ofString t).length := by
  rw [ofString_append, List.length_append]

/-- What holds of the bytes of every character holds of the bytes of a text. -/
theorem forall_mem_ofString_ofList {P : UInt8 → Prop} {cs : List Char}
    (h : ∀ c ∈ cs, ∀ b ∈ ofString (String.ofList [c]), P b) : ∀ b ∈ ofString (String.ofList cs), P b := by
  induction cs with
  | nil =>
    intro b hb
    rw [String.ofList_nil, ofString_empty] at hb
    cases hb
  | cons c cs ih =>
    intro b hb
    rw [ofString_ofList_cons, List.mem_append] at hb
    rcases hb with hb | hb
    · exact h c List.mem_cons_self b hb
    · exact ih (fun d hd => h d (List.mem_cons_of_mem c hd)) b hb

end Bytes

theorem lt_of_isLabelChar {c : Char} (h : isLabelChar c = true) : c.toNat < 128 := by
  have hletter : c.isAlpha = (decide (c.val ≥ 'A'.val ∧ c.val ≤ 'Z'.val) ||
      (decide (c.val ≥ 'a'.val) && decide (c.val ≤ 'z'.val))) := rfl
  simp only [isLabelChar, Char.isAlphanum, hletter, Char.isDigit, Bool.or_eq_true, Bool.and_eq_true,
    decide_eq_true_eq, beq_iff_eq] at h
  rcases h with ((((h | h) | h) | rfl) | rfl) | rfl
  · exact Nat.lt_of_le_of_lt (UInt32.le_iff_toNat_le.1 h.2) (by decide)
  · exact Nat.lt_of_le_of_lt (UInt32.le_iff_toNat_le.1 h.2) (by decide)
  · exact Nat.lt_of_le_of_lt (UInt32.le_iff_toNat_le.1 h.2) (by decide)
  · decide
  · decide
  · decide

/-- The bytes of the characters of a label, for all of ASCII at once. -/
theorem bytes_of_labelChars : ∀ n < 128, isLabelChar (Char.ofNat n) = true →
    ∀ b ∈ Bytes.ofString (String.ofList [Char.ofNat n]), b ≠ slashByte ∧ b ≠ 0 := by
  decide +kernel

theorem Label.bytes_ne (l : Label) : ∀ b ∈ Bytes.ofString l.text, b ≠ slashByte ∧ b ≠ 0 := by
  rw [← String.ofList_toList (s := l.text)]
  refine Bytes.forall_mem_ofString_ofList fun c hc => ?_
  have haccepted := List.all_eq_true.1 l.accepted c hc
  have := bytes_of_labelChars c.toNat (lt_of_isLabelChar haccepted)
  rw [Char.ofNat_toNat] at this
  exact this haccepted

namespace Layout

/-! ## Names -/

theorem isName_rawModules : IsName (Bytes.ofString rawModulesName) := by decide

theorem isName_release : IsName (Bytes.ofString releaseName) := by decide

theorem isName_generated : IsName (Bytes.ofString generatedName) := by decide

theorem isName_dist : IsName (Bytes.ofString distName) := by decide

theorem isName_version (v : Version) : IsName (Bytes.ofString v.text) := by cases v <;> decide

theorem isName_work (v : Version) : IsName (Bytes.ofString ("tmp-" ++ v.text)) := by cases v <;> decide

/-- The bytes of what an archive's name begins with. -/
theorem bytes_archiveStem (v : Version) : (Bytes.ofString (archiveStem ++ "_" ++ v.text ++ "-")).length = 22 ∧
    ∀ b ∈ Bytes.ofString (archiveStem ++ "_" ++ v.text ++ "-"), b ≠ slashByte ∧ b ≠ 0 := by
  cases v <;> decide +kernel

/-- A text of more than two bytes none of which is a slash or zero is a name. -/
theorem isName_of_long {bs : Bytes} (hlong : 2 < bs.length) (h : ∀ b ∈ bs, b ≠ slashByte ∧ b ≠ 0) :
    IsName bs where
  ne_nil := by
    rintro rfl
    cases hlong
  ne_here := by
    rintro rfl
    simp at hlong
  ne_up := by
    rintro rfl
    simp at hlong
  no_slash hb := (h slashByte hb).1 rfl
  no_nul hb := (h 0 hb).2 rfl

theorem isName_archiveRoot (l : Layout) : IsName (Bytes.ofString l.archiveRootName) := by
  obtain ⟨hlength, hstem⟩ := bytes_archiveStem l.version
  rw [archiveRootName, Bytes.ofString_append]
  refine isName_of_long ?_ ?_
  · rw [List.length_append]
    omega
  · intro b hb
    rcases List.mem_append.1 hb with hb | hb
    · exact hstem b hb
    · exact l.label.bytes_ne b hb

theorem isName_archive (l : Layout) : IsName (Bytes.ofString l.archiveFileName) := by
  have hroot := isName_archiveRoot l
  have hzip : ∀ b ∈ Bytes.ofString ".zip", b ≠ slashByte ∧ b ≠ 0 := by decide +kernel
  have hlength : (Bytes.ofString ".zip").length = 4 := by decide
  rw [archiveFileName, Bytes.ofString_append]
  refine isName_of_long ?_ ?_
  · rw [List.length_append]
    omega
  · intro b hb
    rcases List.mem_append.1 hb with hb | hb
    · refine ⟨?_, ?_⟩
      · rintro rfl
        exact hroot.no_slash hb
      · rintro rfl
        exact hroot.no_nul hb
    · exact hzip b hb

theorem length_version_le (v : Version) : (Bytes.ofString v.text).length ≤ Route.nameLimit := by
  cases v <;> decide

theorem length_work_le (v : Version) :
    (Bytes.ofString ("tmp-" ++ v.text)).length ≤ Route.nameLimit := by
  cases v <;> decide

theorem length_archive (l : Layout) :
    (Bytes.ofString l.archiveFileName).length = 26 + (Bytes.ofString l.label.text).length := by
  have hlength := (bytes_archiveStem l.version).1
  have hzip : (Bytes.ofString ".zip").length = 4 := by decide
  rw [archiveFileName, archiveRootName, Bytes.length_ofString_append, Bytes.length_ofString_append, hlength, hzip]
  omega

/-- The longest label of an archive whose name can be looked up. -/
theorem length_archive_le (l : Layout) (h : (Bytes.ofString l.label.text).length ≤ 229) :
    (Bytes.ofString l.archiveFileName).length ≤ Route.nameLimit := by
  rw [l.length_archive, Route.nameLimit]
  omega

/-! ## Lengths -/

theorem length_label_pos (l : Layout) : 0 < (Bytes.ofString l.label.text).length := by
  refine List.length_pos_iff.2 fun hnil => l.label.nonempty ?_
  exact Bytes.ofString_injective (hnil.trans Bytes.ofString_empty.symm)

/-- The archive's path leaves room for the names that the imitated tools use in the working directory. -/
theorem length_workDir_lt (l : Layout) : l.workDir.bytes.length + 31 ≤ l.archivePath.bytes.length := by
  have hversion : (Bytes.ofString ("tmp-" ++ l.version.text)).length = 8 := by cases l.version <;> decide
  have hraw : (Bytes.ofString rawModulesName).length = 11 := by decide
  have hlabel := l.length_label_pos
  rw [archivePath, rawModulesDir, workDir, Path.length_bytes_div l.isName_archive,
    Path.needsSlash_div isName_rawModules, Path.length_bytes_div isName_rawModules,
    Path.length_bytes_div (isName_work l.version), hversion, hraw, l.length_archive]
  split <;> simp <;> omega

/-- The path of the archive's draft is no longer than the one of the archive. -/
theorem length_draft_le (l : Layout) : (l.workDir / l.archiveFileName).bytes.length ≤ l.archivePath.bytes.length := by
  have hversion : (Bytes.ofString ("tmp-" ++ l.version.text)).length = 8 := by cases l.version <;> decide
  have hraw : (Bytes.ofString rawModulesName).length = 11 := by decide
  rw [archivePath, rawModulesDir, workDir, Path.length_bytes_div l.isName_archive,
    Path.length_bytes_div l.isName_archive, Path.needsSlash_div isName_rawModules,
    Path.needsSlash_div (isName_work l.version), Path.length_bytes_div isName_rawModules,
    Path.length_bytes_div (isName_work l.version), hversion, hraw]
  omega

/-- The path of the distributions is no longer than the one of the archive. -/
theorem length_dist_le (l : Layout) :
    (l.versionReleaseDir / distName).bytes.length ≤ l.archivePath.bytes.length := by
  have hversion : (Bytes.ofString l.version.text).length = 4 := by cases l.version <;> decide
  have hraw : (Bytes.ofString rawModulesName).length = 11 := by decide
  have hrelease : (Bytes.ofString releaseName).length = 7 := by decide
  have hdist : (Bytes.ofString distName).length = 4 := by decide
  rw [archivePath, rawModulesDir, versionReleaseDir, releaseDir, Path.length_bytes_div l.isName_archive,
    Path.length_bytes_div isName_rawModules, Path.length_bytes_div isName_dist,
    Path.length_bytes_div (isName_version l.version), Path.length_bytes_div isName_release, hversion, hraw,
    hrelease, hdist, l.length_archive]
  repeat' split
  all_goals omega

/-! ## Different names -/

theorem work_ne_rawModules (v : Version) :
    Bytes.ofString ("tmp-" ++ v.text) ≠ Bytes.ofString rawModulesName := by
  cases v <;> decide

theorem work_ne_release (v : Version) :
    Bytes.ofString ("tmp-" ++ v.text) ≠ Bytes.ofString releaseName := by
  cases v <;> decide

theorem rawModules_ne_release : Bytes.ofString rawModulesName ≠ Bytes.ofString releaseName := by
  decide

/-- Nothing that shorter names stand for is an archive. -/
theorem archive_ne (l : Layout) {name : Name} (h : name.length ≤ 22) :
    Bytes.ofString l.archiveFileName ≠ name := by
  rintro rfl
  rw [l.length_archive] at h
  omega

theorem work_inj {v w : Version} : "tmp-" ++ v.text = "tmp-" ++ w.text ↔ v = w := by
  constructor
  · intro h
    exact Version.text_injective ((String.append_right_inj _).1 h)
  · rintro rfl
    rfl

/-- An archive's name tells the version and the label. -/
theorem archiveFileName_inj {l m : Layout} : Bytes.ofString l.archiveFileName = Bytes.ofString m.archiveFileName ↔
    l.version = m.version ∧ l.label = m.label := by
  have hstem (l : Layout) : Bytes.ofString l.archiveFileName = Bytes.ofString (archiveStem ++ "_" ++ l.version.text ++
      "-") ++ (Bytes.ofString l.label.text ++ Bytes.ofString ".zip") := by
    rw [archiveFileName, archiveRootName, Bytes.ofString_append, Bytes.ofString_append, List.append_assoc]
  constructor
  · intro h
    rw [hstem, hstem] at h
    obtain ⟨hstems, hlabels⟩ := List.append_inj h ((bytes_archiveStem _).1.trans (bytes_archiveStem _).1.symm)
    refine ⟨?_, Label.text_injective (Bytes.ofString_injective (List.append_cancel_right hlabels))⟩
    generalize l.version = v at hstems
    generalize m.version = w at hstems
    revert hstems
    cases v <;> cases w <;> decide
  · rintro ⟨hversion, hlabel⟩
    rw [hstem, hstem, hversion, hlabel]

/-! ## Places -/

variable {l : Layout}

theorem isAbsolute_workDir (hroot : l.root.isAbsolute = true) : l.workDir.isAbsolute = true :=
  Path.isAbsolute_div _ hroot

theorem isAbsolute_rawModulesDir (hroot : l.root.isAbsolute = true) : l.rawModulesDir.isAbsolute = true :=
  Path.isAbsolute_div _ hroot

theorem isAbsolute_releaseDir (hroot : l.root.isAbsolute = true) : l.releaseDir.isAbsolute = true :=
  Path.isAbsolute_div _ hroot

theorem isAbsolute_versionReleaseDir (hroot : l.root.isAbsolute = true) :
    l.versionReleaseDir.isAbsolute = true :=
  Path.isAbsolute_div _ (isAbsolute_releaseDir hroot)

theorem place_workDir :
    l.workDir.place = l.root.place ++ [Bytes.ofString ("tmp-" ++ l.version.text)] :=
  Path.place_div (isName_work l.version)

theorem place_rawModulesDir :
    l.rawModulesDir.place = l.root.place ++ [Bytes.ofString rawModulesName] :=
  Path.place_div isName_rawModules

theorem place_archivePath :
    l.archivePath.place = l.rawModulesDir.place ++ [Bytes.ofString l.archiveFileName] :=
  Path.place_div l.isName_archive

theorem place_releaseDir : l.releaseDir.place = l.root.place ++ [Bytes.ofString releaseName] :=
  Path.place_div isName_release

theorem place_versionReleaseDir :
    l.versionReleaseDir.place = l.releaseDir.place ++ [Bytes.ofString l.version.text] :=
  Path.place_div (isName_version l.version)

theorem place_dist : (l.versionReleaseDir / distName).place =
    l.versionReleaseDir.place ++ [Bytes.ofString distName] :=
  Path.place_div isName_dist

theorem rawModulesDir_isPrefix_archivePath : l.rawModulesDir.place <+: l.archivePath.place := by
  rw [place_archivePath]
  exact List.prefix_append _ _

theorem releaseDir_isPrefix_version : l.releaseDir.place <+: l.versionReleaseDir.place := by
  rw [place_versionReleaseDir]
  exact List.prefix_append _ _

theorem releaseDir_isPrefix_dist :
    l.releaseDir.place <+: (l.versionReleaseDir / distName).place := by
  rw [place_dist]
  exact releaseDir_isPrefix_version.trans (List.prefix_append _ _)

/-- The release tree is outside the working directory. -/
theorem not_work_isPrefix {p : List Name} (hp : l.releaseDir.place <+: p) :
    ¬ l.workDir.place <+: p := by
  intro hwork
  rw [place_workDir] at hwork
  rw [place_releaseDir] at hp
  exact work_ne_release _ (entry_isPrefix_inj hwork hp)

/-- The release tree and the archives are apart. -/
theorem not_rawModules_isPrefix {p : List Name} (hp : l.releaseDir.place <+: p) :
    ¬ l.rawModulesDir.place <+: p := by
  intro hraw
  rw [place_rawModulesDir] at hraw
  rw [place_releaseDir] at hp
  exact rawModules_ne_release (entry_isPrefix_inj hraw hp)

/-- The archive's place is outside the working directory. -/
theorem not_work_isPrefix_archivePath : ¬ l.workDir.place <+: l.archivePath.place := by
  intro hwork
  have hraw := rawModulesDir_isPrefix_archivePath (l := l)
  rw [place_workDir] at hwork
  rw [place_rawModulesDir] at hraw
  exact work_ne_rawModules _ (entry_isPrefix_inj hwork hraw)

theorem not_inside_archivePath : ¬ Inside l.workDir.place l.archivePath.place := by
  intro h
  exact not_work_isPrefix_archivePath h.isPrefix

end Layout

end StubRelease
