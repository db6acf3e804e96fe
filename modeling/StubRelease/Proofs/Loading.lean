/-
# StubRelease.Proofs.Loading -- which configuration a checkout has

A checkout has the configuration its configuration file reads as, and the standard one if no file is found at the
place of the configuration. `Loads` has a rule for each way in which loading can end. A file that stands there is
always read, directly or through links. A directory, and a link that leads to no file, are passed over as if
nothing stood there, though something does. Main statement: a checkout is loaded as `Loads` says and in no other
way, and nothing but a directory or a link is passed over (`load_finds`).
-/
import StubRelease.Proofs.Checking
import StubRelease.Proofs.Settings

namespace StubRelease.Config

/-- The bytes of `content` are found as a file at the place of the configuration, links followed. -/
def FoundAt (s : Store) (root : Path) (content : Content) : Prop :=
  ∃ executable, s.nodeAt true (path root).bytes = .ok (.file content executable)

/-- How loading the configuration of the checkout at `root` can end. -/
inductive Loads (s : Store) (root : Path) : Except Failure Config → Prop
  | notText {content : Content} {fault : IoFault} (hfile : FoundAt s root content)
      (htext : textOf content = .error fault) : Loads s root (.error (.invalidConfig (path root) fault.message))
  | malformed {content : Content} {text : String} (hfile : FoundAt s root content)
      (htext : textOf content = .ok text) (hmalformed : Toml.parse text = none) :
      Loads s root (.error (.invalidConfig (path root) malformedReason))
  /-- The settings of the file count from the root, or one of its entries may not stand in it. -/
  | read {content : Content} {text : String} {entries : Toml.Entries} {result : Except Failure Config}
      (hfile : FoundAt s root content) (htext : textOf content = .ok text)
      (hentries : Toml.parse text = some entries) (hreads : ReadsAs (path root) entries result) :
      Loads s root (result.map (·.resolvedAgainst root))
  | standard (hnone : ∀ content, ¬FoundAt s root content) : Loads s root (.ok (standard.resolvedAgainst root))

variable {s : Store} {root : Path} {content : Content}

/-! ## The probe -/

theorem isFile_iff : s.isFile (path root).bytes = true ↔ ∃ content, FoundAt s root content := by
  unfold Store.isFile FoundAt
  cases s.nodeAt true (path root).bytes with
  | error fault => simp
  | ok node => cases node <;> simp [Node.isFile]

theorem FoundAt.unique {content' : Content} (h : FoundAt s root content) (h' : FoundAt s root content') :
    content = content' := by
  obtain ⟨_, h⟩ := h
  obtain ⟨_, h'⟩ := h'
  cases h.symm.trans h'
  rfl

/-- A file that is found is read. -/
theorem load_of_found (h : FoundAt s root content) : load s root =
    match textOf content with
    | .ok text => (parse (path root) text).map (·.resolvedAgainst root)
    | .error fault => .error (.invalidConfig (path root) fault.message) := by
  obtain ⟨executable, hnode⟩ := h
  rw [load, loadRaw, isFile_iff.2 ⟨content, executable, hnode⟩, if_pos rfl, readText, hnode]
  dsimp only
  cases textOf content <;> rfl

/-- Where no file is found, whatever stands there, the settings are the standard ones. -/
theorem load_of_not_found (h : ∀ content, ¬FoundAt s root content) :
    load s root = .ok (standard.resolvedAgainst root) := by
  have hfile : s.isFile (path root).bytes = false :=
    Bool.eq_false_iff.2 fun hfile => (isFile_iff.1 hfile).elim h
  rw [load, loadRaw, hfile]
  rfl

/-! ## Every way of loading -/

theorem loads_load (s : Store) (root : Path) : Loads s root (load s root) := by
  by_cases hfound : ∃ content, FoundAt s root content
  · obtain ⟨content, hfile⟩ := hfound
    rw [load_of_found hfile]
    cases htext : textOf content with
    | error fault => exact .notText hfile htext
    | ok text =>
      dsimp only
      cases hentries : Toml.parse text with
      | none =>
        rw [parse, hentries]
        exact .malformed hfile htext hentries
      | some entries => exact .read hfile htext hentries (readsAs_parse hentries (path root))
  · have hnone : ∀ content, ¬FoundAt s root content := not_exists.1 hfound
    rw [load_of_not_found hnone]
    exact .standard hnone

theorem Loads.eq_load {result : Except Failure Config} (h : Loads s root result) : load s root = result := by
  cases h with
  | notText hfile htext => rw [load_of_found hfile, htext]
  | malformed hfile htext hmalformed =>
    rw [load_of_found hfile, htext]
    dsimp only
    rw [parse, hmalformed]
    rfl
  | read hfile htext hentries hreads =>
    have hparse := (readsAs_parse hentries (path root)).unique (Toml.parse_distinct hentries) hreads
    rw [load_of_found hfile, htext]
    exact congrArg (Except.map _) hparse
  | standard hnone => exact load_of_not_found hnone

/-! ## What is passed over -/

/-- A file at the place of the configuration is found. -/
theorem foundAt_of_entry {executable : Bool}
    (h : s.nodeAt false (path root).bytes = .ok (.file content executable)) : FoundAt s root content :=
  ⟨executable, Store.nodeAt_of_entry h rfl⟩

/-- What is found stands there as an entry, or a link to it does. -/
theorem FoundAt.entry (h : FoundAt s root content) : s.hasEntry (path root).bytes = true := by
  obtain ⟨executable, hnode⟩ := h
  rcases Store.entry_of_nodeAt hnode with hentry | ⟨target, hentry⟩ <;> rw [Store.hasEntry, hentry] <;> rfl

/-- Main statement: a checkout is loaded as `Loads` says and in no other way. A file at the place of the
configuration is found as it stands there, nothing is found where nothing stands, and what stands there without a
file being found is a directory or a link. -/
theorem load_finds (s : Store) (root : Path) :
    (∀ result, load s root = result ↔ Loads s root result)
      ∧ (∀ content executable, s.nodeAt false (path root).bytes = .ok (.file content executable) →
          FoundAt s root content)
      ∧ (s.hasEntry (path root).bytes = false → load s root = .ok (standard.resolvedAgainst root))
      ∧ ((∀ content, ¬FoundAt s root content) → ∀ node, s.nodeAt false (path root).bytes = .ok node →
          (∃ entries, node = .dir entries) ∨ ∃ target, node = .link target) := by
  refine ⟨fun result => ⟨?_, Loads.eq_load⟩, fun content executable => foundAt_of_entry, fun habsent => ?_,
    fun hnone node hentry => ?_⟩
  · rintro rfl
    exact loads_load s root
  · refine load_of_not_found fun content hfound => ?_
    rw [hfound.entry] at habsent
    cases habsent
  · cases node with
    | file content executable => exact absurd (foundAt_of_entry hentry) (hnone content)
    | dir entries => exact .inl ⟨entries, rfl⟩
    | link target => exact .inr ⟨target, rfl⟩

/-- An entry stands at the place of the configuration, and the settings are the standard ones all the same. -/
structure PassesOver (s : Store) (root : Path) : Prop where
  entry : s.hasEntry (path root).bytes = true
  not_found : ∀ content, ¬FoundAt s root content
  standard : load s root = .ok (standard.resolvedAgainst root)

theorem passesOver_of_not_isFile (hentry : s.hasEntry (path root).bytes = true)
    (hfile : s.isFile (path root).bytes = false) : PassesOver s root := by
  have hnone : ∀ content, ¬FoundAt s root content := fun content hfound =>
    Bool.false_ne_true (hfile.symm.trans (isFile_iff.2 ⟨content, hfound⟩))
  exact ⟨hentry, hnone, load_of_not_found hnone⟩

/-- The root directory with `node` at the place of the configuration. -/
def configuredBy (node : Node) : Store := ⟨Node.emptyDir.put [] (Bytes.ofString fileName) node, []⟩

/-- A directory is passed over, and so is a link that leads nowhere. -/
theorem present_entry_is_passed_over : PassesOver (configuredBy .emptyDir) ⟨"/"⟩
    ∧ PassesOver (configuredBy (.link (Bytes.ofString "nowhere"))) ⟨"/"⟩ :=
  ⟨passesOver_of_not_isFile (by decide +kernel) (by decide +kernel),
    passesOver_of_not_isFile (by decide +kernel) (by decide +kernel)⟩

end StubRelease.Config
