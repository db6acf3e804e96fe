/-
# StubRelease.Proofs.Anchoring -- paths that do not depend on where a tool runs

The paths of a request come from a command line and those of a configuration from a file, and the tools that get
them run in directories of the run's own. A path is anchored in the directory of the invocation before it is
handed on: an absolute one is kept, a relative one is seen from there. It makes no difference whether a name is
put after a path before or after that (`join_join`), which is what the generator script relies on. Main
statement: all paths in the calls of a run and of a batch are anchored, and anchoring again changes nothing
(`calls_anchored`).
-/
import StubRelease.Proofs.Publication
import StubRelease.Proofs.Selection

namespace StubRelease

variable {σ : Type}

/-! ## Paths -/

namespace Path

/-- What `given` stands for in the directory `root`, wherever it is used. -/
structure Anchors (root given p : Path) : Prop where
  absolute : p.isAbsolute = true
  kept : given.isAbsolute = true → p = given
  moved : given.isAbsolute = false → p = root.join given

variable {root p q : Path}

theorem anchors_join (hroot : root.isAbsolute = true) (given : Path) : root.Anchors given (root.join given) where
  absolute := isAbsolute_join given hroot
  kept := join_of_isAbsolute
  moved := fun _ => rfl

/-- What stands between a path and a name after it. -/
def slashAfter (p : Path) : String := if p.needsSlash then "/" else ""

theorem join_of_relative (p : Path) (hq : q.isAbsolute = false) : p.join q = ⟨p.text ++ (p.slashAfter ++ q.text)⟩ := by
  unfold join slashAfter
  rw [hq, if_neg Bool.false_ne_true]
  split
  · rw [String.append_assoc]
  · rw [String.empty_append]

theorem slashAfter_append (t : String) (hp : p.text ≠ "") : slashAfter ⟨t ++ p.text⟩ = p.slashAfter := by
  have hlast : (t ++ p.text).toList.getLast? = p.text.toList.getLast? := by
    rw [String.toList_append, List.getLast?_append_of_ne_nil _ (by simpa using hp)]
  unfold slashAfter needsSlash
  rw [hlast]

/-- After a path that ends as it has to no slash is put. -/
theorem slashAfter_closed (p : Path) : slashAfter ⟨p.text ++ p.slashAfter⟩ = "" := by
  by_cases hneeds : p.needsSlash = true
  · have hafter : p.slashAfter = "/" := if_pos hneeds
    have hlast : (p.text ++ "/").toList.getLast? = some '/' := by simp
    rw [hafter]
    unfold slashAfter needsSlash
    rw [hlast]
    rfl
  · have hafter : p.slashAfter = "" := if_neg hneeds
    rw [hafter, String.append_empty, hafter]

theorem isAbsolute_append {t : String} (hp : p.text ≠ "") : isAbsolute ⟨p.text ++ t⟩ = p.isAbsolute := by
  unfold isAbsolute
  rw [String.toList_append, List.head?_append_of_ne_nil _ (by simpa using hp)]

/-- A name put after a path, seen from a directory, is the name put after the path seen from there. -/
theorem join_join (root p q : Path) : (root.join p).join q = root.join (p.join q) := by
  cases hq : q.isAbsolute with
  | true => rw [join_of_isAbsolute hq, join_of_isAbsolute hq, join_of_isAbsolute hq]
  | false =>
    cases hp : p.isAbsolute with
    | true => rw [join_of_isAbsolute hp, join_of_isAbsolute (isAbsolute_join q hp)]
    | false =>
      rw [join_of_relative root hp, join_of_relative _ hq, join_of_relative p hq]
      by_cases hempty : p.text = ""
      · -- the empty path leaves at most a slash behind, and then none is needed before the name
        have hnone : p.slashAfter = "" := by simp [slashAfter, needsSlash, hempty]
        rw [hempty, hnone, String.append_empty, slashAfter_closed, String.empty_append, String.empty_append,
          join_of_relative root hq, String.append_assoc]
      · have hrel : isAbsolute ⟨p.text ++ (p.slashAfter ++ q.text)⟩ = false := (isAbsolute_append hempty).trans hp
        have hafter : slashAfter ⟨root.text ++ (root.slashAfter ++ p.text)⟩ = p.slashAfter := by
          rw [← String.append_assoc]
          exact slashAfter_append _ hempty
        rw [join_of_relative root hrel, hafter]
        simp only [String.append_assoc]

end Path

/-! ## Requests -/

/-- The name of the directory the tools of a run work in. -/
def RawRequest.workName (raw : RawRequest) : String := if raw.mode = "release" then "tmp-" ++ raw.version else "release"

/-- The words for the one version `v` of a batch. -/
def RawBatch.asked (raw : RawBatch) (v : Version) : RawRequest :=
  ⟨"release", v.text, raw.sourceDir, raw.blenderDir, raw.quiet⟩

/-- The words that ask for a request as it is. -/
def Request.raw (r : Request) : RawRequest := ⟨r.mode.text, r.version.text, r.sourceDir, r.blenderDir, r.quiet⟩

/-- The words that ask for a batch as it is. -/
def Batch.raw (b : Batch) : RawBatch := ⟨b.versions.map Version.text, !b.aggregate, b.sourceDir, b.blenderDir, b.quiet⟩

/-- A request that is accepted is what its words say, with its paths seen from the directory. -/
theorem RawRequest.validate_eq_ok {raw : RawRequest} {root : Path} {r : Request} :
    raw.validate root = .ok r ↔ raw.mode = r.mode.text ∧ raw.version = r.version.text ∧
      r = ⟨r.mode, r.version, root.join raw.sourceDir, root.join raw.blenderDir, raw.quiet⟩ := by
  constructor
  · intro h
    unfold validate at h
    cases hmode : Mode.parse raw.mode with
    | error f =>
      rw [hmode] at h
      cases h
    | ok mode =>
      cases hversion : Version.parse raw.version with
      | error f =>
        rw [hmode, hversion] at h
        cases h
      | ok version =>
        rw [hmode, hversion] at h
        cases h
        exact ⟨Mode.parse_eq_ok_iff.1 hmode, Version.parse_eq_ok_iff.1 hversion, rfl⟩
  · rintro ⟨hmode, hversion, hr⟩
    rw [validate, hmode, hversion, Mode.parse_text, Version.parse_text, hr]
    rfl

theorem RawBatch.validate_eq_ok {raw : RawBatch} {root : Path} {b : Batch} :
    raw.validate root = .ok b ↔ Batch.select raw.versions = .ok b.versions ∧
      b = ⟨b.versions, root.join raw.sourceDir, root.join raw.blenderDir, !raw.skipAggregate, raw.quiet⟩ := by
  constructor
  · intro h
    unfold validate at h
    cases hselect : Batch.select raw.versions with
    | error f =>
      rw [hselect] at h
      cases h
    | ok versions =>
      rw [hselect] at h
      cases h
      exact ⟨rfl, rfl⟩
  · rintro ⟨hselect, hb⟩
    rw [validate, hselect, hb]
    rfl

/-- Every run of a batch has been asked for in the same words but for its version. -/
theorem RawBatch.validate_asked {raw : RawBatch} {root : Path} {b : Batch} (h : raw.validate root = .ok b)
    (v : Version) : (raw.asked v).validate root = .ok (b.request v) := by
  obtain ⟨-, hb⟩ := validate_eq_ok.1 h
  rw [hb]
  exact RawRequest.validate_eq_ok.2 ⟨rfl, rfl, rfl⟩

/-- The words a request was accepted from name its working directory. -/
theorem RawRequest.workName_eq {raw : RawRequest} {root : Path} {r : Request} (h : raw.validate root = .ok r) :
    raw.workName = r.raw.workName := by
  obtain ⟨hmode, hversion, -⟩ := validate_eq_ok.1 h
  unfold workName
  rw [hmode, hversion]
  rfl

/-- Only supported versions are selected from. -/
theorem Batch.supported_of_select {values : List String} {versions : List Version}
    (h : select values = .ok versions) : ∀ value ∈ values, Version.IsSupported value := by
  cases hfirst : values.find? fun value => ¬Version.IsSupported value with
  | none => simpa using List.find?_eq_none.1 hfirst
  | some value =>
    obtain ⟨hvalue, front, rest, rfl, hfront⟩ := List.find?_eq_some_iff_append.1 hfirst
    rw [select_refuses (by simpa using hfront) (by simpa using hvalue)] at h
    cases h

/-! ## Anchoring again -/

theorem RawRequest.validate_again {raw : RawRequest} {root : Path} {r : Request} (hroot : root.isAbsolute = true)
    (h : raw.validate root = .ok r) (other : Path) : r.raw.validate other = .ok r := by
  obtain ⟨-, -, hr⟩ := validate_eq_ok.1 h
  refine validate_eq_ok.2 ⟨rfl, rfl, ?_⟩
  rw [hr]
  simp only [Request.raw, Path.join_join_of_isAbsolute _ _ hroot]

theorem RawBatch.validate_again {raw : RawBatch} {root : Path} {b : Batch} (hroot : root.isAbsolute = true)
    (h : raw.validate root = .ok b) (other : Path) : b.raw.validate other = .ok b := by
  obtain ⟨hselect, hb⟩ := validate_eq_ok.1 h
  obtain ⟨versions, hversions, hne, hnodup, -⟩ := Batch.select_supported (Batch.supported_of_select hselect)
  obtain rfl : b.versions = versions := Except.ok.inj (hselect.symm.trans hversions)
  refine validate_eq_ok.2 ⟨Batch.select_texts hne hnodup, ?_⟩
  rw [hb]
  simp only [Batch.raw, Path.join_join_of_isAbsolute _ _ hroot, Bool.not_not]

/-! ## Calls -/

/-- A call of a run that was asked for in the words of `raw` from the directory `root` and found `given` in its
configuration file: every path in it is anchored. -/
inductive Call.Anchored (root : Path) (raw : RawRequest) (given : Config) : Call → Prop
  | generator {program : String} {script source blender cwd : Path} {words : List String}
      (hcwd : root.Anchors ⟨raw.workName⟩ cwd) (hscript : root.Anchors given.generatorScript script)
      (hsource : root.Anchors raw.sourceDir source) (hblender : root.Anchors raw.blenderDir blender) :
      Anchored root raw given ⟨program, script.text :: source.text :: blender.text :: words, cwd⟩
  | readme {program : String} {readme cwd : Path} (hcwd : root.Anchors ⟨raw.workName⟩ cwd)
      (hreadme : root.Anchors given.readme readme) :
      Anchored root raw given ⟨program, ["-f", "markdown", "-t", "rst", "-o", "README.rst", readme.text], cwd⟩
  | setup {program : String} {command : SetupCommand} {cwd : Path} (hcwd : root.Anchors ⟨raw.workName⟩ cwd) :
      Anchored root raw given ⟨program, ["setup.py", command.text], cwd⟩

/-- The script is anchored with its directory. -/
theorem Config.anchors_generatorScript {root : Path} (hroot : root.isAbsolute = true) (given : Config) :
    root.Anchors given.generatorScript (given.resolvedAgainst root).generatorScript := by
  have hscript : (given.resolvedAgainst root).generatorScript = root.join given.generatorScript :=
    Path.join_join root given.scriptDir ⟨generatorName⟩
  rw [hscript]
  exact Path.anchors_join hroot _

/-- The calls of a plan are for the three tools and run in the run's directory. -/
theorem Request.call_of_mem_plan {r : Request} {c : Config} {root : Path} {call : Call} (h : call ∈ r.plan c root) :
    call = .generator c r.mode r.version r.sourceDir r.blenderDir (root / r.raw.workName) ∨
      call = .readme c (root / r.raw.workName) ∨ ∃ command, call = .setup c command (root / r.raw.workName) := by
  obtain ⟨mode, version, sourceDir, blenderDir, quiet⟩ := r
  cases mode with
  | release =>
    simp only [plan, List.mem_cons, List.not_mem_nil, or_false] at h
    obtain rfl | rfl | rfl | rfl := h
    · exact .inl rfl
    · exact .inr (.inl rfl)
    · exact .inr (.inr ⟨.sdist, rfl⟩)
    · exact .inr (.inr ⟨.bdistWheel, rfl⟩)
  | develop =>
    simp only [plan, List.mem_cons, List.not_mem_nil, or_false] at h
    obtain rfl | rfl | rfl := h
    · exact .inl rfl
    · exact .inr (.inl rfl)
    · exact .inr (.inr ⟨.develop, rfl⟩)

theorem Call.anchored_of_mem_plan {root : Path} (hroot : root.isAbsolute = true) {raw : RawRequest} {r : Request}
    (h : raw.validate root = .ok r) {given : Config} {call : Call}
    (hcall : call ∈ r.plan (given.resolvedAgainst root) root) : Anchored root raw given call := by
  have hcwd : root.Anchors ⟨raw.workName⟩ (root / r.raw.workName) := by
    rw [RawRequest.workName_eq h]
    exact Path.anchors_join hroot _
  obtain ⟨-, -, hr⟩ := RawRequest.validate_eq_ok.1 h
  obtain rfl | rfl | ⟨command, rfl⟩ := Request.call_of_mem_plan hcall
  · have hsource : root.Anchors raw.sourceDir r.sourceDir := by
      rw [hr]
      exact Path.anchors_join hroot _
    have hblender : root.Anchors raw.blenderDir r.blenderDir := by
      rw [hr]
      exact Path.anchors_join hroot _
    exact .generator hcwd (Config.anchors_generatorScript hroot given) hsource hblender
  · exact .readme hcwd (Path.anchors_join hroot _)
  · exact .setup hcwd

/-! ## Runs -/

/-- The calls of a run are planned with the configuration the run has found. -/
theorem RunTrace.planned {r : Request} {root : Path} {store : Store} {events : List ToolEvent}
    {result : Except Failure Outcome} (h : RunTrace r root store events result) {event : ToolEvent}
    (hevent : event ∈ events) : ∃ given, Config.loadRaw store root = .ok given ∧
      event.call ∈ r.plan (given.resolvedAgainst root) root := by
  unfold RunTrace Config.load at h
  cases hload : Config.loadRaw store root with
  | error f =>
    rw [hload] at h
    obtain ⟨rfl, -⟩ := h
    cases hevent
  | ok given =>
    rw [hload] at h
    exact ⟨given, rfl, h.in_order.subset (List.mem_map_of_mem hevent)⟩

/-- A call of a batch is a call of the run for one of its versions, which has found its own configuration after
the versions before it were released. -/
theorem BatchTrace.planned {e : Executor σ} {b : Batch} {root : Path} {label : Label} {versions : List Version}
    {s : Session σ} {events : List ToolEvent} {stop : Option Failure}
    (h : BatchTrace e b root label versions s events stop) {event : ToolEvent} (hevent : event ∈ events) :
    ∃ done v rest t given, versions = done ++ v :: rest ∧ releaseEach e b root label done s = (.ok (), t) ∧
      Config.loadRaw t.store root = .ok given ∧
      event.call ∈ (b.request v).plan (given.resolvedAgainst root) root := by
  induction h with
  | finished s => cases hevent
  | stopped hrun hown htrace =>
    obtain ⟨given, hload, hcall⟩ := htrace.planned hevent
    exact ⟨[], _, _, _, given, rfl, rfl, hload, hcall⟩
  | continued hrun hown htrace hlater ih =>
    rcases List.mem_append.1 hevent with hfirst | hsecond
    · obtain ⟨given, hload, hcall⟩ := htrace.planned hfirst
      exact ⟨[], _, _, _, given, rfl, rfl, hload, hcall⟩
    · obtain ⟨done, v, rest, t, given, rfl, hdone, hload, hcall⟩ := ih hsecond
      refine ⟨_ :: done, v, rest, t, given, rfl, ?_, hload, hcall⟩
      rw [releaseEach, Sequence.bind_of_ok _ hrun]
      exact hdone

/-- Main statement: from an absolute directory every path in a call of a run or of a batch is anchored there, and
what is anchored, a configuration, a request or a batch, is not changed by anchoring it anywhere else. -/
theorem calls_anchored (e : Executor σ) {root : Path} (hroot : root.isAbsolute = true) (label : Label)
    (s : Session σ) :
    (∀ raw r, RawRequest.validate raw root = .ok r → ∃ events,
      (package e r root label s).2.history = s.history ++ events ∧
      ∀ event ∈ events, ∃ given, Config.loadRaw s.store root = .ok given ∧
        Call.Anchored root raw given event.call)
    ∧ (∀ raw b, RawBatch.validate raw root = .ok b → ∃ events,
      (buildAll e b root label s).2.history = s.history ++ events ∧
      ∀ event ∈ events, ∃ done v rest t given, b.versions = done ++ v :: rest ∧
        releaseEach e b root label done s = (.ok (), t) ∧ Config.loadRaw t.store root = .ok given ∧
        Call.Anchored root (raw.asked v) given event.call)
    ∧ (∀ (given : Config) other, (given.resolvedAgainst root).resolvedAgainst other = given.resolvedAgainst root)
    ∧ (∀ raw r, RawRequest.validate raw root = .ok r → ∀ other, r.raw.validate other = .ok r)
    ∧ ∀ raw b, RawBatch.validate raw root = .ok b → ∀ other, b.raw.validate other = .ok b := by
  refine ⟨fun raw r hr => ?_, fun raw b hb => ?_, fun given other => ?_, fun raw r hr other => ?_,
    fun raw b hb other => ?_⟩
  · obtain ⟨events, hhistory, htrace⟩ := package_trace e r root label s
    refine ⟨events, hhistory, fun event hevent => ?_⟩
    obtain ⟨given, hload, hcall⟩ := htrace.planned hevent
    exact ⟨given, hload, Call.anchored_of_mem_plan hroot hr hcall⟩
  · obtain ⟨events, stop, hhistory, htrace, -⟩ := buildAll_trace e b root label s
    refine ⟨events, hhistory, fun event hevent => ?_⟩
    obtain ⟨done, v, rest, t, given, hversions, hdone, hload, hcall⟩ := htrace.planned hevent
    exact ⟨done, v, rest, t, given, hversions, hdone, hload,
      Call.anchored_of_mem_plan hroot (RawBatch.validate_asked hb v) hcall⟩
  · exact given.resolvedAgainst_resolvedAgainst other hroot
  · exact RawRequest.validate_again hroot hr other
  · exact RawBatch.validate_again hroot hb other

/-- A release of the small checkout whose source directory is named by a relative path makes four calls. -/
theorem small_calls_anchored :
    let raw : RawRequest := ⟨"release", "2.79", ⟨"s/./"⟩, ⟨"/b"⟩, true⟩
    let r : Request := ⟨.release, .v279, ⟨"/r/s/./"⟩, ⟨"/b"⟩, true⟩
    (⟨"/r"⟩ : Path).isAbsolute = true ∧ raw.validate ⟨"/r"⟩ = .ok r ∧ ∃ events,
      (package (Executor.putting smallTree) r ⟨"/r"⟩ smallLabel
        (.start ⟨smallCheckout, []⟩ () ⟨none, []⟩ false)).2.history = [] ++ events ∧ events.length = 4 ∧
      ∀ event ∈ events, ∃ given, Config.loadRaw ⟨smallCheckout, []⟩ ⟨"/r"⟩ = .ok given ∧
        Call.Anchored ⟨"/r"⟩ raw given event.call := by
  intro raw r
  have hroot : (⟨"/r"⟩ : Path).isAbsolute = true := by decide
  have hvalid : raw.validate ⟨"/r"⟩ = .ok r := by decide +kernel
  have hlength : (package (Executor.putting smallTree) r ⟨"/r"⟩ smallLabel
      (.start ⟨smallCheckout, []⟩ () ⟨none, []⟩ false)).2.history.length = 4 := by decide +kernel
  obtain ⟨hsingle, -⟩ := calls_anchored (Executor.putting smallTree) hroot smallLabel
    (.start ⟨smallCheckout, []⟩ () ⟨none, []⟩ false)
  obtain ⟨events, hhistory, hanchored⟩ := hsingle raw r hvalid
  refine ⟨hroot, hvalid, events, hhistory, ?_, hanchored⟩
  rw [hhistory] at hlength
  exact hlength

end StubRelease
