/-
# StubRelease.Proofs.Causes -- what a run can fail of

A failure of a run has one of three causes: the files it works with, the invocation, or the last call it made.
A step that only touches files fails of the files (`FailsWith IsOfFiles`), whether it archives, stages or packs.
Main statement: a step that also calls tools fails of its own kind of causes or of its last call, which has
failed (`Accounted`), and nothing but its checks adds the invocation to the causes.
-/
import StubRelease.Proofs.Releasing
import StubRelease.Proofs.ToolTrace

namespace StubRelease

open Sequence

variable {σ τ α β : Type}

/-! ## Steps that fail of certain causes only -/

/-- A failure of the files a run works with. -/
def Failure.IsOfFiles : Failure → Prop
  | missingInput _ | destinationExists _ | archive _ _ | notText _ | io _ => True
  | _ => False

open Failure (IsOfFiles)

theorem Failure.IsOfFiles.isBadInvocation_eq {f : Failure} (h : f.IsOfFiles) : f.isBadInvocation = false := by
  cases f <;> first | rfl | exact h.elim

/-- A step that may fail, but only of certain causes. -/
def FailsWith (P : Failure → Prop) (x : ExceptT Failure (StateM τ) α) : Prop :=
  ∀ s f t, x s = (.error f, t) → P f

namespace FailsWith

variable {P Q : Failure → Prop} {x : ExceptT Failure (StateM τ) α}

theorem mono (h : FailsWith P x) (hPQ : ∀ f, P f → Q f) : FailsWith Q x :=
  fun s f t hrun => hPQ f (h s f t hrun)

theorem pure (a : α) : FailsWith P (Pure.pure a : ExceptT Failure (StateM τ) α) := by
  intro s f t h
  cases (outcome_inj.1 h).1

theorem throw {f : Failure} (hf : P f) : FailsWith P (MonadExcept.throw f : ExceptT Failure (StateM τ) α) := by
  intro s g t h
  cases (outcome_inj.1 h).1
  exact hf

theorem bind {f : α → ExceptT Failure (StateM τ) β} (hx : FailsWith P x) (hf : ∀ a, FailsWith P (f a)) :
    FailsWith P (x >>= f) := by
  intro s failure u h
  rw [run_bind] at h
  cases hrun : x s with
  | mk result t =>
    rw [hrun] at h
    cases result with
    | error _ =>
      cases (outcome_inj.1 h).1
      exact hx s failure t hrun
    | ok a => exact hf a t failure u h

theorem ofFiles (op : Files α) : FailsWith IsOfFiles (Work.ofFiles op) := by
  intro s f t h
  rw [ofFiles_eq] at h
  cases hop : (op s).1 with
  | ok a =>
    rw [hop] at h
    cases (outcome_inj.1 h).1
  | error fault =>
    rw [hop] at h
    cases (outcome_inj.1 h).1
    trivial

theorem require (condition : Store → Bool) {otherwise : Failure} (hf : P otherwise) :
    FailsWith P (Work.require condition otherwise) := by
  intro s f t h
  rw [require_eq] at h
  cases hcondition : condition s with
  | true => simp [hcondition] at h
  | false =>
    simp only [hcondition, Bool.false_eq_true, if_false, outcome_inj] at h
    cases h.1
    exact hf

theorem ofWork {step : Work α} (h : FailsWith P step) : FailsWith P (Run.ofWork step : Run σ α) := by
  intro s f t hrun
  rw [ofWork_eq] at hrun
  exact h s.store f (step s.store).2 (Prod.ext (outcome_inj.1 hrun).1 rfl)

theorem progress (quiet : Bool) (text : String) : FailsWith P (Run.progress quiet text : Run σ Unit) := by
  intro s f t h
  cases quiet <;> cases (outcome_inj.1 h).1

theorem say (text : String) : FailsWith P (Run.say text : Run σ Unit) := progress false text

end FailsWith

/-! ## Archives -/

namespace Archive

/-- Packing that stops for the files it packs, if it stops. -/
def Packed.StopsForFiles (p : Packed) : Prop := ∀ f, p.failure = some f → f.IsOfFiles

namespace Packed.StopsForFiles

theorem of_none {p : Packed} (h : p.failure = none) : p.StopsForFiles := by
  intro f hf
  rw [h] at hf
  cases hf

theorem of_some {p : Packed} {f : Failure} (h : p.failure = some f) (hf : f.IsOfFiles) :
    p.StopsForFiles := by
  intro g hg
  rw [h] at hg
  cases hg
  exact hf

theorem followedBy {p next : Packed} (hp : p.StopsForFiles) (hnext : next.StopsForFiles) :
    (p.followedBy next).StopsForFiles := by
  intro f hf
  rw [Packed.followedBy] at hf
  cases hfailure : p.failure with
  | some g =>
    rw [hfailure] at hf
    exact hp f hf
  | none =>
    rw [hfailure] at hf
    exact hnext f hf

end Packed.StopsForFiles

mutual

theorem zipNode_stopsForFiles (s : Store) (name path : Bytes) : (n : Node) → (zipNode s name path n).StopsForFiles
  | .file _ _ => by
    rw [zipNode]
    split
    · exact .of_some rfl trivial
    · exact .of_none rfl
  | .link _ => by
    rw [zipNode]
    cases contentAt s path with
    | ok _ => exact .of_none rfl
    | error _ => exact .of_some rfl trivial
  | .dir entries => by
    rw [zipNode]
    split
    · exact .of_some rfl trivial
    · exact .followedBy (.of_none rfl) (zipEntries_stopsForFiles s name path entries)

theorem zipEntries_stopsForFiles (s : Store) (name path : Bytes) :
    (entries : List (Name × Node)) → (zipEntries s name path entries).StopsForFiles
  | [] => by
    rw [zipEntries]
    exact .of_none rfl
  | (n, child) :: rest => by
    rw [zipEntries]
    cases Bytes.toString? n with
    | none => exact .of_some rfl trivial
    | some _ =>
      exact .followedBy (zipNode_stopsForFiles s _ _ child) (zipEntries_stopsForFiles s name path rest)

end

/-- Writing what was packed fails as packing did. -/
theorem failsWith_fill {place : List Name} {pack : Store → Packed} (h : ∀ s, (pack s).StopsForFiles)
    (content : Packed → Content) (finish : Packed → α) : FailsWith IsOfFiles (do
      let s ← get
      modify (·.fill place (content (pack s)))
      match (pack s).failure with
      | some failure => throw failure
      | none => Pure.pure (finish (pack s)) : Work α) := by
  intro s f t hrun
  simp only [run_bind, run_get, run_modify] at hrun
  cases hfailure : (pack s).failure with
  | none =>
    rw [hfailure] at hrun
    cases (outcome_inj.1 hrun).1
  | some failure =>
    rw [hfailure] at hrun
    cases (outcome_inj.1 hrun).1
    exact h s f hfailure

theorem zipDirectory_failsWith (source : Path) (rootName : String) (output : Path) :
    FailsWith IsOfFiles (zipDirectory source rootName output) := by
  refine .bind (.require _ trivial) fun _ => .bind (.ofFiles _) fun place =>
    failsWith_fill (fun s => ?_) (fun packed => .archive .zip packed.members)
      fun packed => (⟨output, packed.files⟩ : ZipSummary)
  cases (whileWriting s place).nodeAt false source.bytes with
  | ok node => exact zipNode_stopsForFiles _ _ _ node
  | error fault => exact .of_some rfl trivial

theorem Packed.StopsForFiles.all {parts : List Packed} (h : ∀ part ∈ parts, part.StopsForFiles) :
    (Packed.all parts).StopsForFiles := by
  induction parts with
  | nil => exact .of_none rfl
  | cons first rest ih =>
    obtain ⟨hfirst, hrest⟩ := List.forall_mem_cons.1 h
    exact hfirst.followedBy (ih hrest)

mutual

theorem tarNodeWith_stopsForFiles (order : Listing.Order) {jump : Bytes → Bytes → Node → Packed}
    (hjump : ∀ name path n, (jump name path n).StopsForFiles) (s : Store) (name path : Bytes) :
    (n : Node) → (tarNodeWith order jump s name path n).StopsForFiles
  | .file _ _ => by
    rw [tarNodeWith]
    split
    · exact .of_some rfl trivial
    · exact .of_none rfl
  | .link _ => by
    rw [tarNodeWith]
    cases s.nodeAt true path with
    | ok node => exact hjump name path node
    | error _ => exact .of_some rfl trivial
  | .dir entries => by
    rw [tarNodeWith]
    split
    · exact .of_some rfl trivial
    · refine .followedBy (.of_none rfl) (.all fun part hpart => ?_)
      obtain ⟨⟨entry, packed⟩, hentry, rfl⟩ := List.mem_map.1 hpart
      obtain ⟨other, -, hfound⟩ := List.mem_filterMap.1 hentry
      obtain ⟨_, hpacked, heq⟩ := Option.map_eq_some_iff.1 hfound
      cases heq
      exact tarEntriesWith_stopForFiles order hjump s name path entries _ (Listing.mem_of_find? hpacked)

theorem tarEntriesWith_stopForFiles (order : Listing.Order) {jump : Bytes → Bytes → Node → Packed}
    (hjump : ∀ name path n, (jump name path n).StopsForFiles) (s : Store) (name path : Bytes) :
    (entries : List (Name × Node)) →
      ∀ part ∈ tarEntriesWith order jump s name path entries, part.2.StopsForFiles
  | [] => by
    rw [tarEntriesWith]
    nofun
  | (n, child) :: rest => by
    rw [tarEntriesWith]
    exact List.forall_mem_cons.2 ⟨tarNodeWith_stopsForFiles order hjump s _ _ child,
      tarEntriesWith_stopForFiles order hjump s name path rest⟩

end

theorem tarNode_stopsForFiles (order : Listing.Order) (s : Store) (n : Nat) (name path : Bytes) (node : Node) :
    (tarNode order s n name path node).StopsForFiles := by
  induction n generalizing name path node with
  | zero => exact tarNodeWith_stopsForFiles order (fun _ _ _ => by exact .of_some rfl trivial) s name path node
  | succ n ih => exact tarNodeWith_stopsForFiles order (fun _ _ _ => ih _ _ _) s name path node

theorem createTarball_failsWith (order : Listing.Order) (source output : Path) :
    FailsWith IsOfFiles (createTarball order source output) := by
  refine .bind (.require _ trivial) fun _ => ?_
  cases Path.lastName? source.bytes with
  | none => exact .throw trivial
  | some rootName =>
    refine .bind (.ofFiles _) fun place =>
      failsWith_fill (fun s => ?_) (fun packed => .archive .tarball packed.members) fun _ => ()
    cases (whileWriting s place).nodeAt true source.bytes with
    | ok node => exact tarNode_stopsForFiles order _ _ _ _ node
    | error fault => exact .of_some rfl trivial

theorem tarballs_failsWith (order : Listing.Order) (root : Path) (names : List String) :
    FailsWith IsOfFiles (tarballs order root names) := by
  induction names with
  | nil => exact .pure []
  | cons name rest ih => exact .bind (createTarball_failsWith order _ _) fun _ => .bind ih fun _ => .pure _

end Archive

/-! ## Staging -/

namespace Staging

theorem movePath_failsWith (source dest : Path) : FailsWith IsOfFiles (movePath source dest) :=
  .bind (.require _ trivial) fun _ => .ofFiles _

theorem promoteEntry_failsWith (workDir : Path) (name : Name) : FailsWith IsOfFiles (promoteEntry workDir name) := by
  rw [promoteEntry]
  cases Bytes.toString? name with
  | none => exact .throw trivial
  | some text => exact movePath_failsWith _ _

theorem promoteEach_failsWith (workDir : Path) (listing : List Name) :
    FailsWith IsOfFiles (promoteListed.each workDir listing) := by
  induction listing with
  | nil => exact .pure ()
  | cons name rest ih => exact .bind (promoteEntry_failsWith workDir name) fun _ => ih

theorem promoteGenerated_failsWith (order : Listing.Order) (workDir : Path) :
    FailsWith IsOfFiles (promoteGenerated order workDir) :=
  .bind (.require _ trivial) fun _ => .bind (.ofFiles _) fun listing =>
    .bind (promoteEach_failsWith workDir listing) fun _ => .bind (.ofFiles _) fun _ => .pure _

theorem copyEach_failsWith (workDir : Path) (c : Config) (names : List String) :
    FailsWith IsOfFiles (copyMetadata.each workDir c names) := by
  induction names with
  | nil => exact .pure ()
  | cons name rest ih => exact .bind (.bind (.require _ trivial) fun _ => .ofFiles _) fun _ => ih

theorem publishDist_failsWith (workDir releaseDir : Path) : FailsWith IsOfFiles (publishDist workDir releaseDir) :=
  .bind (.require _ trivial) fun _ => .bind (.ofFiles _) fun _ => .bind (movePath_failsWith _ _) fun _ => .pure _

end Staging

/-! ## Steps that call tools -/

/-- The last of some calls was one of an executor's, and it failed like this. -/
def LastFails (e : Executor σ) (events : List ToolEvent) (f : Failure) : Prop :=
  ∃ before event tools store, events = before ++ [event] ∧
    event.result = (e.run event.call tools store).result ∧ event.failure? = some f

/-- A step of a run that fails of certain causes, or of its last call. -/
def Accounted (e : Executor σ) (P : Failure → Prop) (x : Run σ α) : Prop :=
  ∀ s, ∃ events, (x s).2.history = s.history ++ events ∧
    ∀ f, (x s).1 = .error f → P f ∨ LastFails e events f

namespace Accounted

variable {e : Executor σ} {P Q : Failure → Prop} {x : Run σ α}

theorem mono (h : Accounted e P x) (hPQ : ∀ f, P f → Q f) : Accounted e Q x := by
  intro s
  obtain ⟨events, hhistory, hcause⟩ := h s
  exact ⟨events, hhistory, fun f hf => (hcause f hf).imp_left (hPQ f)⟩

/-- A step that calls no tool. -/
theorem silent (h : FailsWith P x) (hsilent : Traced [] x) : Accounted e P x := by
  intro s
  refine ⟨[], by rw [hsilent.history_eq, List.append_nil], fun f hf => .inl ?_⟩
  exact h s f (x s).2 (Prod.ext hf rfl)

theorem pure (a : α) : Accounted e P (Pure.pure a) := silent (.pure a) (.pure a)

theorem ofWork {step : Work α} (h : FailsWith P step) : Accounted e P (Run.ofWork step) :=
  silent (.ofWork h) (.ofWork step)

theorem ofFiles (op : Files α) : Accounted e IsOfFiles (Run.ofFiles op) := ofWork (.ofFiles op)

theorem progress (quiet : Bool) (text : String) : Accounted e P (Run.progress quiet text) :=
  silent (.progress quiet text) (.progress quiet text)

theorem callChecked (e : Executor σ) (c : Call) : Accounted e P (Run.callChecked e c) := by
  intro s
  let event : ToolEvent := ⟨c, (e.run c s.tools s.store).result, (e.run c s.tools s.store).store⟩
  obtain ⟨hhistory, hresult⟩ : (Run.callChecked e c s).2.history = s.history ++ [event] ∧
      ∀ f, (Run.callChecked e c s).1 = .error f → event.failure? = some f := by
    rw [Run.callChecked, run_bind]
    cases hresult : (e.run c s.tools s.store).result with
    | error failure =>
      simp only [Run.call, hresult, event, ToolEvent.failure?]
      exact ⟨trivial, fun f hf => congrArg some (Except.error.inj hf)⟩
    | ok status =>
      simp only [Run.call, hresult, event, ToolEvent.failure?]
      cases status.isSuccess with
      | true =>
        refine ⟨rfl, fun f hf => ?_⟩
        cases hf
      | false => exact ⟨rfl, fun f hf => congrArg some (Except.error.inj hf)⟩
  exact ⟨[event], hhistory, fun f hf => .inr ⟨[], event, s.tools, s.store, rfl, rfl, hresult f hf⟩⟩

theorem bind {f : α → Run σ β} (hx : Accounted e P x) (hf : ∀ a, Accounted e P (f a)) :
    Accounted e P (x >>= f) := by
  intro s
  obtain ⟨events, hhistory, hcause⟩ := hx s
  cases hrun : x s with
  | mk result t =>
    rw [hrun] at hhistory hcause
    cases result with
    | error failure =>
      rw [bind_of_error f hrun]
      exact ⟨events, hhistory, fun f hf => hcause f (by cases hf; rfl)⟩
    | ok a =>
      rw [bind_of_ok f hrun]
      obtain ⟨later, hlater, hcause'⟩ := hf a t
      refine ⟨events ++ later, by rw [hlater, hhistory, List.append_assoc], fun failure hfailure => ?_⟩
      refine (hcause' failure hfailure).imp_right ?_
      rintro ⟨before, event, tools, store, rfl, hresult, hfails⟩
      exact ⟨events ++ before, event, tools, store, (List.append_assoc _ _ _).symm, hresult, hfails⟩

end Accounted

namespace Job

variable (j : Job σ)

theorem makeOutputDirs_failsWith : FailsWith IsOfFiles j.makeOutputDirs :=
  .bind (.ofWork (.ofFiles _)) fun _ => .ofWork (.ofFiles _)

theorem makeOutputDirs_accounted : Accounted j.executor IsOfFiles j.makeOutputDirs :=
  .silent j.makeOutputDirs_failsWith j.makeOutputDirs_traced

theorem archiveGenerated_accounted (workDir : Path) :
    Accounted j.executor IsOfFiles (j.archiveGenerated workDir) :=
  .bind (.ofWork (Archive.zipDirectory_failsWith _ _ _)) fun _ => .ofFiles _

theorem generateAndStage_accounted (mode : Mode) (workDir : Path) :
    Accounted j.executor IsOfFiles (j.generateAndStage mode workDir) :=
  .bind (.progress _ _) fun _ =>
    .bind (.callChecked _ _) fun _ =>
      .bind (.progress _ _) fun _ =>
        .bind (j.archiveGenerated_accounted workDir) fun _ =>
          .bind (.ofWork (Staging.promoteGenerated_failsWith _ workDir)) fun _ =>
            .bind (.ofWork (Staging.copyEach_failsWith workDir j.config _)) fun _ =>
              .bind (.progress _ _) fun _ =>
                .bind (.bind (.ofWork (.require _ trivial)) fun _ => .callChecked _ _) fun _ => .pure _

theorem runSetup_accounted (workDir : Path) (commands : List SetupCommand) :
    Accounted j.executor IsOfFiles (j.runSetup workDir commands) := by
  induction commands with
  | nil => exact .pure ()
  | cons command rest ih => exact .bind (.progress _ _) fun _ => .bind (.callChecked _ _) fun _ => ih

theorem develop_accounted : Accounted j.executor IsOfFiles j.develop :=
  .bind j.makeOutputDirs_accounted fun _ =>
    .bind (j.generateAndStage_accounted .develop _) fun _ =>
      .bind (j.runSetup_accounted _ _) fun _ => .bind (.progress _ _) fun _ => .pure _

/-- A release that has its working directory. -/
theorem buildAndPublish_accounted : Accounted j.executor IsOfFiles j.buildAndPublish :=
  .bind (.bind (j.generateAndStage_accounted .release _) fun _ =>
      .bind (j.runSetup_accounted _ _) fun _ => .pure _) fun _ =>
    .bind (.bind (.ofWork (Staging.publishDist_failsWith _ _)) fun _ =>
      .bind (.ofFiles _) fun _ => .bind (.progress _ _) fun _ => .pure _) fun _ => .pure _

end Job

/-! ## Batches -/

theorem sayTarballs_failsWith {P : Failure → Prop} (tarballs : List Path) :
    FailsWith P (sayTarballs tarballs : Run σ Unit) := by
  induction tarballs with
  | nil => exact .pure ()
  | cons tarball rest ih => exact .bind (.say _) fun _ => ih

/-- Packing the outputs of a batch and telling of them fails of the files. -/
theorem packOutputs_failsWith (order : Listing.Order) (b : Batch) (root : Path) :
    FailsWith IsOfFiles (packOutputs order b root : Run σ (List Path)) := by
  have htell (tarballs : List Path) : FailsWith IsOfFiles (do
      if b.quiet then pure ()
      else
        Run.say (Progress.packaged b.versions.length)
        sayTarballs tarballs
      pure tarballs : Run σ (List Path)) := by
    dsimp only
    split
    · exact .pure tarballs
    · exact .bind (.say _) fun _ => .bind (sayTarballs_failsWith tarballs) fun _ => .pure tarballs
  rw [packOutputs]
  split
  · exact .bind (.ofWork (Archive.tarballs_failsWith order root _)) htell
  · exact .bind (.pure []) htell

end StubRelease
