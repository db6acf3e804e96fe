/-
# StubRelease.Proofs.Copying -- what copying the metadata does to its sources

A copy empties its destination before it reads its source, so a file that is copied onto itself is lost, whether the
two paths are spelled alike or a link leads from one to the other (`copyFile_onto_itself`). Main statement: a source
that no copy is written to holds what it held, however the copying ends, and if no path of a copy leads to a source or
to another copy, each copy holds what its source holds (`copyMetadata_preserves_sources`).
-/
import StubRelease.Proofs.Staging
import StubRelease.Proofs.Tree.Targets

namespace StubRelease

open Sequence Node

/-! ## Files that paths lead to -/

namespace Store

/-- Between `s` and `t` files were written where the paths lead, and nothing else was done. -/
structure WritesTargets (paths : List Bytes) (s t : Store) : Prop where
  cwd : t.cwd = s.cwd
  ways : s.top.SameWays t.top
  elsewhere : ∀ p, (∀ path ∈ paths, s.target path ≠ some p) → t.top.look p = s.top.look p

namespace WritesTargets

variable {paths more : List Bytes} {path : Bytes} {s t u : Store} {content : Content} {executable : Bool}

theorem refl (paths : List Bytes) (s : Store) : WritesTargets paths s s := ⟨rfl, .refl _, fun _ _ => rfl⟩

theorem trans (h : WritesTargets paths s t) (h' : WritesTargets paths t u) : WritesTargets paths s u := by
  refine ⟨h'.cwd.trans h.cwd, h.ways.trans h'.ways, fun p hp => ?_⟩
  rw [h'.elsewhere, h.elsewhere p hp]
  intro path hpath
  rw [target_of_ways h.ways h.cwd]
  exact hp path hpath

theorem mono (h : WritesTargets paths s t) (hmore : ∀ path ∈ paths, path ∈ more) : WritesTargets more s t :=
  ⟨h.cwd, h.ways, fun p hp => h.elsewhere p fun path hpath => hp path (hmore path hpath)⟩

theorem sameTarget_iff (h : WritesTargets paths s t) {a b : Bytes} : t.SameTarget a b ↔ s.SameTarget a b := by
  rw [SameTarget, SameTarget, target_of_ways h.ways h.cwd, target_of_ways h.ways h.cwd]

/-- A path that leads to none of the others leads to the same file. -/
theorem nodeAt_file_iff (h : WritesTargets paths s t) (hapart : ∀ other ∈ paths, ¬ s.SameTarget path other) :
    t.nodeAt true path = .ok (.file content executable) ↔ s.nodeAt true path = .ok (.file content executable) := by
  have hlook {p : List Name} (hp : s.target path = some p) : t.top.look p = s.top.look p := by
    refine h.elsewhere p fun other hother heq => ?_
    exact hapart other hother ⟨by simp [hp], hp.trans heq.symm⟩
  rw [nodeAt_iff_target, nodeAt_iff_target, target_of_ways h.ways h.cwd]
  constructor
  · rintro ⟨p, hp, hnode⟩
    refine ⟨p, hp, ?_⟩
    rwa [← look_eq_file, ← hlook hp, look_eq_file]
  · rintro ⟨p, hp, hnode⟩
    refine ⟨p, hp, ?_⟩
    rwa [← look_eq_file, hlook hp, look_eq_file]

end WritesTargets

end Store

namespace Files.Copied

variable {s t : Store} {source dest : Bytes} {content : Content} {executable : Bool}

theorem writesTargets (h : Copied s source dest content executable t) : Store.WritesTargets [dest] s t :=
  ⟨h.cwd, h.ways, fun p hp => h.elsewhere p (hp dest (by simp))⟩

/-- A copy of another file holds what that holds. -/
theorem nodeAt_dest (h : Copied s source dest content executable t) (hapart : ¬ s.SameTarget source dest) :
    t.nodeAt true dest = .ok (.file content executable) := by
  obtain ⟨q, hq, hwritten⟩ := h.written
  have hother : s.target source ≠ some q := by
    intro hsource
    exact hapart ⟨by simp [hsource], hsource.trans hq.symm⟩
  rw [if_neg hother, look_eq_file] at hwritten
  exact Store.nodeAt_iff_target.2 ⟨q, by rw [Store.target_of_ways h.ways h.cwd, hq], hwritten⟩

end Files.Copied

/-- A file that is copied onto itself is empty afterwards. -/
theorem Files.copyFile_onto_itself {s t : Store} {source dest : Bytes} (hsame : s.SameTarget source dest)
    (h : copyFile source dest s = (.ok (), t)) :
    ∃ executable, t.nodeAt true source = .ok (.file (.plain []) executable) := by
  obtain ⟨fault, hfault⟩ | ⟨content, executable, u, hcopy, hcopied⟩ := copyFile_cases source dest s
  · rw [hfault] at h
    cases (outcome_inj.1 h).1
  · rw [hcopy] at h
    obtain ⟨-, rfl⟩ := outcome_inj.1 h
    obtain ⟨q, hq, hwritten⟩ := hcopied.written
    have hsource := hsame.2.trans hq
    rw [if_pos hsource, look_eq_file] at hwritten
    exact ⟨executable, Store.nodeAt_iff_target.2
      ⟨q, by rw [Store.target_of_ways hcopied.ways hcopied.cwd, hsource], hwritten⟩⟩

/-! ## Copying the metadata -/

namespace Staging

variable {s t : Store} {w : Path} {c : Config}

/-- The paths that files of these names are copied to. -/
def copyPaths (w : Path) (names : List String) : List Bytes := names.map fun name => (w / name).bytes

theorem copyMetadataFile_cases (w scriptDir : Path) (name : String) (s : Store) :
    (∃ failure, copyMetadataFile w scriptDir name s = (.error failure, s)) ∨
      ∃ content executable t, copyMetadataFile w scriptDir name s = (.ok (), t) ∧
        Files.Copied s (scriptDir / name).bytes (w / name).bytes content executable t := by
  rw [copyMetadataFile, run_bind, require_eq]
  cases s.isFile (scriptDir / name).bytes with
  | false => exact .inl ⟨_, rfl⟩
  | true =>
    simp only [if_true, ofFiles_eq]
    obtain ⟨fault, hfault⟩ | ⟨content, executable, t, hcopy, hcopied⟩ :=
      Files.copyFile_cases (scriptDir / name).bytes (w / name).bytes s
    · rw [hfault]
      exact .inl ⟨_, rfl⟩
    · rw [hcopy]
      exact .inr ⟨content, executable, t, rfl, hcopied⟩

/-- However the copying ends, nothing but the copies is written. -/
theorem copyEach_writesTargets (w : Path) (c : Config) (names : List String) (s : Store) :
    Store.WritesTargets (copyPaths w names) s (copyMetadata.each w c names s).2 := by
  induction names generalizing s with
  | nil => exact .refl _ s
  | cons name rest ih =>
    obtain ⟨failure, hfailure⟩ | ⟨content, executable, t, hcopy, hcopied⟩ :=
      copyMetadataFile_cases w c.scriptDir name s
    · rw [copyMetadata.each, bind_of_error _ hfailure]
      exact .refl _ s
    · rw [copyMetadata.each, bind_of_ok _ hcopy]
      exact (hcopied.writesTargets.mono (by simp [copyPaths])).trans
        ((ih t).mono fun path hpath => List.mem_cons_of_mem _ hpath)

/-- Copying that succeeds has found all sources and has made a copy of each, if no path of a copy leads to a source or
to another copy. -/
theorem copyEach_exact {names : List String}
    (hsources : ∀ x ∈ names, ∀ y ∈ names, ¬ s.SameTarget (c.scriptDir / x).bytes (w / y).bytes)
    (hcopies : names.Pairwise fun x y => ¬ s.SameTarget (w / x).bytes (w / y).bytes)
    (h : copyMetadata.each w c names s = (.ok (), t)) :
    ∀ x ∈ names, ∃ content executable, s.nodeAt true (c.scriptDir / x).bytes = .ok (.file content executable) ∧
      t.nodeAt true (w / x).bytes = .ok (.file content executable) := by
  induction names generalizing s with
  | nil => simp
  | cons name rest ih =>
    obtain ⟨hothers, hrest⟩ := List.pairwise_cons.1 hcopies
    obtain ⟨failure, hfailure⟩ | ⟨content, executable, u, hcopy, hcopied⟩ :=
      copyMetadataFile_cases w c.scriptDir name s
    · rw [copyMetadata.each, bind_of_error _ hfailure] at h
      cases (outcome_inj.1 h).1
    · rw [copyMetadata.each, bind_of_ok _ hcopy] at h
      have hwrites := hcopied.writesTargets
      have hlater : Store.WritesTargets (copyPaths w rest) u t := by
        have hrun := copyEach_writesTargets w c rest u
        rwa [h] at hrun
      have hkept := ih
        (fun x hx y hy => mt hwrites.sameTarget_iff.1 (hsources x (List.mem_cons_of_mem _ hx) y (List.mem_cons_of_mem _ hy)))
        (hrest.imp fun hapart => mt hwrites.sameTarget_iff.1 hapart) h
      intro x hx
      rcases List.mem_cons.1 hx with rfl | hx
      · -- the first copy holds what it should, and no later one is written to its place
        refine ⟨content, executable, hcopied.held, (hlater.nodeAt_file_iff ?_).2 ?_⟩
        · intro path hpath
          obtain ⟨y, hy, rfl⟩ := List.mem_map.1 hpath
          exact mt hwrites.sameTarget_iff.1 (hothers y hy)
        · exact hcopied.nodeAt_dest (hsources x List.mem_cons_self x List.mem_cons_self)
      · obtain ⟨content', executable', hsource, hdest⟩ := hkept x hx
        refine ⟨content', executable', (hwrites.nodeAt_file_iff ?_).1 hsource, hdest⟩
        simpa using hsources x (List.mem_cons_of_mem _ hx) name List.mem_cons_self

/-- A source that no copy is written to holds what it held, however the copying ends. Copying that succeeds has made
exact copies of the sources and has left the sources as they were, if no path of a copy leads to a source or to another
copy. -/
theorem copyMetadata_preserves_sources (w : Path) (c : Config) (s : Store) :
    (∀ x ∈ Config.metadataNames, ∀ content executable,
        s.nodeAt true (c.scriptDir / x).bytes = .ok (.file content executable) →
        (∀ y ∈ Config.metadataNames, ¬ s.SameTarget (c.scriptDir / x).bytes (w / y).bytes) →
        (copyMetadata w c s).2.nodeAt true (c.scriptDir / x).bytes = .ok (.file content executable)) ∧
      ∀ t, copyMetadata w c s = (.ok (), t) →
        (∀ x ∈ Config.metadataNames, ∀ y ∈ Config.metadataNames,
          ¬ s.SameTarget (c.scriptDir / x).bytes (w / y).bytes) →
        (Config.metadataNames.Pairwise fun x y => ¬ s.SameTarget (w / x).bytes (w / y).bytes) →
        ∀ x ∈ Config.metadataNames, ∃ content executable,
          s.nodeAt true (c.scriptDir / x).bytes = .ok (.file content executable) ∧
            t.nodeAt true (c.scriptDir / x).bytes = .ok (.file content executable) ∧
            t.nodeAt true (w / x).bytes = .ok (.file content executable) := by
  have hwrites := copyEach_writesTargets w c Config.metadataNames s
  have hapart {x : String} (h : ∀ y ∈ Config.metadataNames, ¬ s.SameTarget (c.scriptDir / x).bytes (w / y).bytes) :
      ∀ path ∈ copyPaths w Config.metadataNames, ¬ s.SameTarget (c.scriptDir / x).bytes path := by
    intro path hpath
    obtain ⟨y, hy, rfl⟩ := List.mem_map.1 hpath
    exact h y hy
  refine ⟨fun x _ content executable hfile h => (hwrites.nodeAt_file_iff (hapart h)).2 hfile, ?_⟩
  intro t hrun hsources hcopies x hx
  obtain ⟨content, executable, hsource, hcopy⟩ := copyEach_exact hsources hcopies hrun x hx
  have hkept := (hwrites.nodeAt_file_iff (hapart (hsources x hx))).2 hsource
  rw [← copyMetadata, hrun] at hkept
  exact ⟨content, executable, hsource, hkept, hcopy⟩

/-- The metadata in the standard script directory, and an empty directory to copy it to. -/
def metadataStore : Store :=
  ⟨.dir [(Bytes.ofString "src", .dir [(Bytes.ofString "MANIFEST.in", .ofBytes (Bytes.ofString "m")),
    (Bytes.ofString "setup.py", .ofBytes (Bytes.ofString "s"))]), (Bytes.ofString "w", .emptyDir)], []⟩

/-- The metadata is copied to the empty directory, and is still there when it cannot be copied to a missing one. -/
theorem copies_of_metadataStore :
    (∃ t, copyMetadata ⟨"w"⟩ .standard metadataStore = (.ok (), t) ∧
      ∀ x ∈ Config.metadataNames, ∃ content executable,
        metadataStore.nodeAt true (Config.standard.scriptDir / x).bytes = .ok (.file content executable) ∧
          t.nodeAt true (Config.standard.scriptDir / x).bytes = .ok (.file content executable) ∧
          t.nodeAt true (Path.mk "w" / x).bytes = .ok (.file content executable)) ∧
      (copyMetadata ⟨"v"⟩ .standard metadataStore).2.nodeAt true (Config.standard.scriptDir / "setup.py").bytes =
        .ok (.ofBytes (Bytes.ofString "s")) := by
  have hrun : copyMetadata ⟨"w"⟩ .standard metadataStore = (.ok (), (copyMetadata ⟨"w"⟩ .standard metadataStore).2) := rfl
  exact ⟨⟨_, hrun, (copyMetadata_preserves_sources ⟨"w"⟩ .standard metadataStore).2 _ hrun (by decide +kernel)
    (by decide +kernel)⟩, (copyMetadata_preserves_sources ⟨"v"⟩ .standard metadataStore).1 "setup.py" (by decide)
    (.plain (Bytes.ofString "s")) false rfl (by decide +kernel)⟩

/-- Metadata that is copied to the directory it is in is lost. -/
theorem copies_into_script_directory :
    metadataStore.nodeAt true (Config.standard.scriptDir / "setup.py").bytes = .ok (.ofBytes (Bytes.ofString "s")) ∧
      (copyMetadata ⟨"src"⟩ .standard metadataStore).1 = .ok () ∧
      (copyMetadata ⟨"src"⟩ .standard metadataStore).2.nodeAt true (Config.standard.scriptDir / "setup.py").bytes =
        .ok (.ofBytes []) :=
  ⟨rfl, rfl, rfl⟩

end Staging

end StubRelease
