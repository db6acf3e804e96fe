/-
# StubRelease.Proofs.Checking -- the checks of an invocation

An invocation for one version is checked in a fixed order: the mode, the version, the label, the place of the
working directory, the configuration file. Each check is described here by what it looks at, whatever the
others find (`Check.defect?`). Main statement: in a tree without links an invocation is rejected exactly if one
of the checks fails, with the failure of the first one that does, and then nothing was done
(`runSingle_rejected_iff`). The probe that a release makes after its output directories rejects nothing that
the first one has passed.
-/
import StubRelease.Proofs.Rejecting
import StubRelease.Proofs.Roots

namespace StubRelease

open Sequence

variable {σ α β : Type}

/-! ## Checks -/

/-- An invocation for one version, and the checkout it is made in. -/
structure Invocation where
  raw : RawRequest
  /-- The text of the variable that overrides the label, if it is set. -/
  labelOverride : Option String
  root : Path
  store : Store

/-- What is checked before a run. -/
inductive Check where
  | mode
  | version
  | label
  | workDir
  | config
deriving DecidableEq, Repr

namespace Check

/-- The checks in the order in which they are made. -/
def all : List Check := [mode, version, label, workDir, config]

theorem mem_all (c : Check) : c ∈ all := by cases c <;> decide

/-- What is wrong with the configuration file of a checkout: it is not text, or not a configuration. Only a
file counts as one. -/
def configDefect? (s : Store) (root : Path) : Option Failure :=
  match s.nodeAt true (Config.path root).bytes with
  | .ok (.file content _) =>
    match Config.textOf content with
    | .error fault => some (.invalidConfig (Config.path root) fault.message)
    | .ok text =>
      match Config.parse (Config.path root) text with
      | .error failure => some failure
      | .ok _ => none
  | _ => none

/-- The failure of a check, if it fails. -/
def defect? (i : Invocation) : Check → Option Failure
  | mode => if i.raw.mode = "develop" ∨ i.raw.mode = "release" then none else some (.unsupportedMode i.raw.mode)
  | version =>
    if i.raw.version ∈ Version.all.map Version.text then none
    else some (.unsupportedVersion i.raw.version Version.supportedList)
  | label =>
    i.labelOverride.bind fun value => (value.toList.find? fun c => !isLabelChar c).map fun c =>
      .invalidLabel value (Label.characterReason c)
  | workDir =>
    let path := i.root / ("tmp-" ++ i.raw.version)
    if i.store.hasEntry path.bytes then some (.workDirExists path) else none
  | config => configDefect? i.store i.root

end Check

/-- The failure of the first check that fails. -/
def Invocation.defect? (i : Invocation) : Option Failure := Check.all.findSome? (·.defect? i)

theorem Invocation.defect?_eq (i : Invocation) : i.defect? = (Check.mode.defect? i).or ((Check.version.defect? i).or
    ((Check.label.defect? i).or ((Check.workDir.defect? i).or (Check.config.defect? i)))) := by
  simp only [defect?, Check.all, List.findSome?_cons, List.findSome?_nil]
  cases Check.mode.defect? i <;> cases Check.version.defect? i <;> cases Check.label.defect? i <;>
    cases Check.workDir.defect? i <;> cases Check.config.defect? i <;> rfl

/-! ## What each check decides -/

theorem Mode.errorOf_parse (i : Invocation) : errorOf (Mode.parse i.raw.mode) = Check.mode.defect? i := by
  rw [Mode.parse, Check.defect?]
  by_cases hdevelop : i.raw.mode = "develop"
  · simp [hdevelop, errorOf]
  · by_cases hrelease : i.raw.mode = "release"
    · simp [hrelease, errorOf]
    · simp [hdevelop, hrelease, errorOf]

theorem Version.errorOf_parse (i : Invocation) : errorOf (Version.parse i.raw.version) = Check.version.defect? i := by
  rw [Check.defect?]
  by_cases hmem : i.raw.version ∈ Version.all.map Version.text
  · obtain ⟨v, -, hv⟩ := List.mem_map.1 hmem
    rw [if_pos hmem, ← hv, parse_text]
    rfl
  · rw [if_neg hmem, parse_eq_error_of_forall_ne fun v hv => hmem (List.mem_map.2 ⟨v, mem_all v, hv.symm⟩)]
    rfl

/-- A label is refused for its first character that may not stand in one; an empty override is none. -/
theorem Label.errorOf_ofEnvironment (i : Invocation) (now : Instant) :
    errorOf (Label.ofEnvironment (i.labelOverride.map Bytes.ofString) now) = Check.label.defect? i := by
  rw [ofEnvironment, Check.defect?]
  cases i.labelOverride with
  | none => rfl
  | some value =>
    simp only [Option.map_some, Option.bind_some, Bytes.toString?_ofString, resolve]
    by_cases hempty : value = ""
    · simp [hempty, errorOf]
    · rw [if_neg hempty, parse, dif_neg hempty]
      by_cases hall : value.toList.all isLabelChar = true
      · have hnone : value.toList.find? (fun c => !isLabelChar c) = none := by simpa using hall
        simp [hall, hnone, errorOf]
      · rw [dif_neg hall]
        cases hfind : value.toList.find? (fun c => !isLabelChar c) with
        | some c => rfl
        | none => exact absurd (by simpa using hfind) hall

theorem Config.errorOf_load (s : Store) (root : Path) : errorOf (Config.load s root) = Check.configDefect? s root := by
  rw [Config.load, loadRaw, Store.isFile, readText, Check.configDefect?]
  cases s.nodeAt true (path root).bytes with
  | error fault => rfl
  | ok node =>
    cases node with
    | dir _ => rfl
    | link _ => rfl
    | file content _ =>
      simp only [Node.isFile, if_true]
      cases textOf content with
      | error fault => rfl
      | ok text =>
        dsimp only
        cases parse (path root) text <;> rfl

/-- A configuration that cannot be read rejects the invocation. -/
theorem Config.isBadInvocation_of_load {s : Store} {root : Path} {f : Failure} (h : Config.load s root = .error f) :
    f.isBadInvocation = true := by
  have hdefect := errorOf_load s root
  rw [h, Check.configDefect?] at hdefect
  split at hdefect
  · split at hdefect
    · cases hdefect
      rfl
    · rename_i text _
      rw [parse] at hdefect
      split at hdefect
      · rename_i hparse
        cases hdefect
        split at hparse
        · cases hparse
          rfl
        · split at hparse
          · cases hparse
            rfl
          · cases hparse
      · cases hdefect
  · cases hdefect

/-- Without links the probe of a place finds what stands there. -/
theorem Store.present_eq_hasEntry {s : Store} {p : Path} {text : String} (hfree : s.top.LinkFree)
    (hname : IsName (Bytes.ofString text)) : s.present (p / text).bytes = s.hasEntry (p / text).bytes := by
  have hlink (target : Bytes) (place : List Name) : s.top.look place ≠ some (.link target) := hfree place target
  refine Bool.eq_iff_iff.2 ⟨fun h => ?_, fun h => ?_⟩
  · cases hnode : s.nodeAt true (p / text).bytes with
    | error fault =>
      rw [present, hnode] at h
      cases h
    | ok node =>
      obtain ⟨hfinds, hshort, hget⟩ := finds_of_nodeAt hname hfree hnode
      rw [hasEntry, nodeAt_div hname hfinds hshort (by simp), hget]
      rfl
  · cases hnode : s.nodeAt false (p / text).bytes with
    | error fault =>
      rw [hasEntry, hnode] at h
      cases h
    | ok node =>
      obtain ⟨-, -, hget⟩ := finds_of_nodeAt hname hfree hnode
      have hplain : node.isLink = false := by
        cases node with
        | link target => exact absurd (Node.look_eq_link.2 hget) (hlink target _)
        | file _ _ => rfl
        | dir _ => rfl
      rw [present, nodeAt_of_entry hnode hplain]
      rfl

/-! ## Rejected invocations -/

/-- A run of a checkout that stands is rejected at once: what its second probe could find was there for the
first. -/
theorem Rejected.early {r : Request} {root : Path} {label : Label} {s t : Session σ} {f : Failure}
    (h : Rejected r root label s f t) (hs : s.store.top.Plain) (hroot : s.store.Stands root) : t = s ∧
      (s.store.present (root / ("tmp-" ++ r.version.text)).bytes = true ∨ Config.load s.store root = .error f) := by
  cases h with
  | workDir stands => exact ⟨rfl, .inl stands⟩
  | config free load => exact ⟨rfl, .inr load⟩
  | late mode free history makes stands =>
    have hbefore := makes.present hs hroot stands
    rw [Layout.workDir, free] at hbefore
    cases hbefore

/-- Every check that fails rejects the invocation. -/
theorem Check.isBadInvocation_of_defect? {c : Check} {i : Invocation} {f : Failure} (h : c.defect? i = some f) :
    f.isBadInvocation = true := by
  cases c with
  | mode =>
    rw [defect?] at h
    split at h
    · cases h
    · cases h
      rfl
  | version =>
    rw [defect?] at h
    split at h
    · cases h
    · cases h
      rfl
  | label =>
    obtain ⟨value, -, hvalue⟩ := Option.bind_eq_some_iff.1 h
    obtain ⟨c, -, rfl⟩ := Option.map_eq_some_iff.1 hvalue
    rfl
  | workDir =>
    simp only [defect?] at h
    split at h
    · cases h
      rfl
    · cases h
  | config =>
    rw [defect?, ← Config.errorOf_load] at h
    cases hload : Config.load i.store i.root with
    | ok _ =>
      rw [hload] at h
      cases h
    | error failure =>
      rw [hload] at h
      cases h
      exact Config.isBadInvocation_of_load hload

namespace Launch

variable {e : Executor σ} {l : Launch} {s : Session σ} {root : Path}

/-- The work for one version, once it is known where it was started. -/
theorem runSingle_eq (raw : RawRequest) (hroot : invocationDir s.store = .ok root) : l.runSingle e raw s =
    match raw.validate root with
    | .error f => (.error f, s)
    | .ok request =>
      match Label.ofEnvironment l.labelOverride l.now with
      | .error f => (.error f, s)
      | .ok label =>
        match package e request root label s with
        | (.ok _, t) => (.ok (), t)
        | (.error f, t) => (.error f, t) := by
  rw [runSingle, run_bind, ofStore_eq, hroot]
  simp only [run_bind, ofStore_eq]
  cases raw.validate root with
  | error f => rfl
  | ok request =>
    simp only
    cases Label.ofEnvironment l.labelOverride l.now with
    | error f => rfl
    | ok label =>
      simp only
      cases package e request root label s with
      | mk result t => cases result <;> rfl

theorem validate_eq (raw : RawRequest) (root : Path) : raw.validate root =
    match Mode.parse raw.mode with
    | .error f => .error f
    | .ok mode =>
      match Version.parse raw.version with
      | .error f => .error f
      | .ok version => .ok ⟨mode, version, root.join raw.sourceDir, root.join raw.blenderDir, raw.quiet⟩ := by
  rw [RawRequest.validate]
  cases Mode.parse raw.mode with
  | error f => rfl
  | ok mode => cases Version.parse raw.version <;> rfl

omit l in
/-- The last two checks of an invocation are those of its run. -/
theorem package_of_defects (he : e.NeverRejects) (hs : s.store.top.Plain) (hroot : s.store.Stands root)
    (request : Request) (label : Label) {i : Invocation} (hversion : i.raw.version = request.version.text)
    (hiroot : i.root = root) (hstore : i.store = s.store) :
    match (Check.workDir.defect? i).or (Check.config.defect? i) with
    | some f => package e request root label s = (.error f, s)
    | none => ∀ f t, package e request root label s = (.error f, t) → f.isBadInvocation = false := by
  have hprobe := Store.present_eq_hasEntry (p := root) hs.linkFree (Layout.isName_work request.version)
  have hconfig := Config.errorOf_load s.store root
  simp only [Check.defect?, hversion, hiroot, hstore, ← hprobe, ← hconfig]
  cases hfree : s.store.present (root / ("tmp-" ++ request.version.text)).bytes with
  | true => exact package_of_present e request root label hfree
  | false =>
    cases hload : Config.load s.store root with
    | error f => exact package_of_load_error e request root label hfree hload
    | ok c =>
      intro f t hrun
      refine Bool.eq_false_iff.2 fun hf => ?_
      obtain ⟨-, hstands | hfails⟩ := (package_rejects he hrun hf).early hs hroot
      · rw [hfree] at hstands
        cases hstands
      · rw [hload] at hfails
        cases hfails

/-- An invocation is rejected by the first check that fails, which leaves everything as it is; where none fails
it is not rejected. -/
theorem runSingle_of_defect? (raw : RawRequest) (he : e.NeverRejects) (hs : s.store.top.Plain)
    (hroot : invocationDir s.store = .ok root) {labelOverride : Option String}
    (hlabel : l.labelOverride = labelOverride.map Bytes.ofString) :
    match Invocation.defect? ⟨raw, labelOverride, root, s.store⟩ with
    | some f => l.runSingle e raw s = (.error f, s)
    | none => ∀ f t, l.runSingle e raw s = (.error f, t) → f.isBadInvocation = false := by
  obtain ⟨i, hi⟩ : ∃ i : Invocation, i = ⟨raw, labelOverride, root, s.store⟩ := ⟨_, rfl⟩
  have hmodes := Mode.errorOf_parse i
  have hversions := Version.errorOf_parse i
  have hlabels := Label.errorOf_ofEnvironment i l.now
  -- the failure of each check is that of the step which makes it, so both sides run through the same cases
  rw [← hi, i.defect?_eq, ← hmodes, ← hversions, ← hlabels, runSingle_eq raw hroot, validate_eq]
  have hraw : i.raw = raw := by rw [hi]
  have hoverride : i.labelOverride.map Bytes.ofString = l.labelOverride := by rw [hi, hlabel]
  rw [hraw, hoverride]
  cases Mode.parse raw.mode with
  | error f => rfl
  | ok mode =>
    cases hversion : Version.parse raw.version with
    | error f => rfl
    | ok version =>
      cases Label.ofEnvironment l.labelOverride l.now with
      | error f => rfl
      | ok label =>
        have hlast := package_of_defects he hs (invocationDir_stands hs hroot)
          ⟨mode, version, root.join raw.sourceDir, root.join raw.blenderDir, raw.quiet⟩ label
          (i := i) (by rw [hraw, Version.parse_eq_ok_iff.1 hversion]) (by rw [hi]) (by rw [hi])
        simp only [errorOf, Option.none_or]
        cases hdefect : (Check.workDir.defect? i).or (Check.config.defect? i) with
        | some f =>
          rw [hdefect] at hlast
          simp only [hlast]
        | none =>
          rw [hdefect] at hlast
          intro f t hrun
          refine hlast f t ?_
          cases hpackage : package e ⟨mode, version, root.join raw.sourceDir, root.join raw.blenderDir, raw.quiet⟩
              root label s with
          | mk result u =>
            rw [hpackage] at hrun
            cases result with
            | ok _ => cases (outcome_inj.1 hrun).1
            | error failure =>
              obtain ⟨hfailure, rfl⟩ := outcome_inj.1 hrun
              rw [Except.error.inj hfailure]

/-- An invocation for one version is rejected exactly if one of its checks fails, with the failure of the first
that does. Nothing was done then: the store and the tools are as they were, no tool was called, and the program
exits with 1. -/
theorem runSingle_rejected_iff (raw : RawRequest) (he : e.NeverRejects) (hs : s.store.top.Plain)
    (hroot : invocationDir s.store = .ok root) {labelOverride : Option String}
    (hlabel : l.labelOverride = labelOverride.map Bytes.ofString) :
    ((∃ f t, l.runSingle e raw s = (.error f, t) ∧ f.isBadInvocation = true) ↔
      ∃ c : Check, c.defect? ⟨raw, labelOverride, root, s.store⟩ ≠ none) ∧
    ∀ f t, l.runSingle e raw s = (.error f, t) → f.isBadInvocation = true →
      Check.all.findSome? (·.defect? ⟨raw, labelOverride, root, s.store⟩) = some f ∧ t = s ∧
        (exit (.error f : Except Failure Unit) t).code = 1 := by
  have hchecked := runSingle_of_defect? raw he hs hroot hlabel
  rw [Invocation.defect?] at hchecked
  cases hfirst : Check.all.findSome? (·.defect? ⟨raw, labelOverride, root, s.store⟩) with
  | some failure =>
    rw [hfirst] at hchecked
    obtain ⟨c, -, hc⟩ := List.exists_of_findSome?_eq_some hfirst
    have hbad := Check.isBadInvocation_of_defect? hc
    refine ⟨⟨fun _ => ⟨c, by simp [hc]⟩, fun _ => ⟨failure, s, hchecked, hbad⟩⟩, fun f t hrun hf => ?_⟩
    rw [hchecked] at hrun
    obtain ⟨hfailure, rfl⟩ := outcome_inj.1 hrun
    cases hfailure
    exact ⟨rfl, rfl, Failure.exitCode_eq_one_of_isBadInvocation hf⟩
  | none =>
    rw [hfirst] at hchecked
    refine ⟨⟨?_, ?_⟩, fun f t hrun hf => ?_⟩
    · rintro ⟨f, t, hrun, hf⟩
      rw [hchecked f t hrun] at hf
      cases hf
    · rintro ⟨c, hc⟩
      exact absurd (List.findSome?_eq_none_iff.1 hfirst c (Check.mem_all c)) hc
    · rw [hchecked f t hrun] at hf
      cases hf

end Launch

/-- An invocation with three defects: its label has a blank, its working directory is there, and its configuration
is not text. -/
def smallInvocation : Invocation where
  raw := ⟨"release", "2.79", ⟨"/s"⟩, ⟨"/b"⟩, true⟩
  labelOverride := some "1 2"
  root := ⟨"/r"⟩
  store := ⟨(smallCheckout.put [Bytes.ofString "r"] (Bytes.ofString "tmp-2.79") Node.emptyDir).put [Bytes.ofString "r"]
    (Bytes.ofString Config.fileName) (.ofBytes [255]), [Bytes.ofString "r"]⟩

/-- The start of the invocation. -/
def smallLaunch : Launch := ⟨.single, [], some (Bytes.ofString "1 2"), ⟨0⟩⟩

/-- The label is the defect that is reported. -/
theorem smallInvocation_rejected :
    let s : Session Unit := .start smallInvocation.store () ⟨none, []⟩ false
    Check.label.defect? smallInvocation ≠ none ∧ Check.workDir.defect? smallInvocation ≠ none ∧
      Check.config.defect? smallInvocation ≠ none ∧
      smallLaunch.runSingle (Executor.putting smallTree) smallInvocation.raw s =
        (.error (.invalidLabel "1 2" (Label.characterReason ' ')), s) := by
  intro s
  have hlabel : Check.label.defect? smallInvocation ≠ none := by decide +kernel
  have hplain : s.store.top.Plain :=
    (plain_smallCheckout.put [Bytes.ofString "r"] (by decide : IsName (Bytes.ofString "tmp-2.79")) .emptyDir).put
      [Bytes.ofString "r"] (by decide : IsName (Bytes.ofString Config.fileName)) (.file _ _)
  have hroot : invocationDir smallInvocation.store = .ok ⟨"/r"⟩ := by
    have htext : Bytes.toString? (Store.placeText smallInvocation.store.cwd) = some "/r" := by decide +kernel
    obtain ⟨entries, hcwd⟩ : ∃ entries, smallInvocation.store.top.get? smallInvocation.store.cwd =
      some (.dir entries) := ⟨_, rfl⟩
    simp only [invocationDir, hcwd, htext]
  obtain ⟨hiff, hfirst⟩ := Launch.runSingle_rejected_iff smallInvocation.raw (s := s)
    (Executor.neverRejects_putting smallTree) hplain hroot
    (show smallLaunch.labelOverride = (some "1 2").map Bytes.ofString from rfl)
  obtain ⟨f, t, hrun, hf⟩ := hiff.2 ⟨.label, hlabel⟩
  obtain ⟨hdefect, rfl, -⟩ := hfirst f t hrun hf
  obtain rfl : Failure.invalidLabel "1 2" (Label.characterReason ' ') = f :=
    Option.some.inj ((by decide +kernel : Check.all.findSome? (·.defect? smallInvocation) = some _).symm.trans hdefect)
  exact ⟨hlabel, by decide +kernel, by decide +kernel, hrun⟩

end StubRelease
