/-
# StubRelease.Proofs.Programs -- which programs the tools of a run are

The shell, the interpreter and the converter of a configuration are handed to the system as they are written. A
program called by a path is looked for from the directory the call runs in, so a relative path that leads to it
from the root does not lead there: it is run only if it stands below the directory of the run
(`Call.StartsIn.relative`, `Call.StartsIn.started`). A bare name and an absolute path mean the same everywhere.
Main statement: this is how every tool of a run is started (`programs_start_in_work_directory`).
-/
import Mathlib.Data.List.Find
import StubRelease.Proofs.Anchoring
import StubRelease.Proofs.ByteOrder
import StubRelease.Proofs.Tree.Gains
import StubRelease.Shell.Executor

namespace StubRelease

open Sequence

variable {σ : Type}

/-! ## Paths seen from another directory -/

theorem Path.isAbsolute_of_head_bytes {p : Path} (h : p.bytes.head? = some Route.slashByte) : p.isAbsolute = true := by
  rw [Path.bytes, Bytes.ofString_eq_flatMap] at h
  unfold isAbsolute
  cases htext : p.text.toList with
  | nil =>
    rw [htext] at h
    cases h
  | cons c cs =>
    rw [htext, List.flatMap_cons, List.head?_append_of_ne_nil _ String.utf8EncodeChar_ne_nil,
      Bytes.utf8EncodeChar_eq] at h
    have hc : c.toNat = '/'.toNat := Bytes.eq_of_mem_form (Bytes.toNat_lt c) (List.mem_of_mem_head? h) (by decide)
    rw [Char.toNat_inj.1 hc]
    rfl

theorem Path.bytes_ne_nil {p : Path} (h : p.text ≠ "") : p.bytes ≠ [] := fun hnil =>
  h (Bytes.ofString_injective (hnil.trans Bytes.ofString_empty.symm))

theorem Path.bytes_join {dir p : Path} (hneeds : dir.needsSlash = true) (hp : p.isAbsolute = false) :
    (dir.join p).bytes = dir.bytes ++ Route.slashByte :: p.bytes := by
  have hslash : Bytes.ofString "/" = [Route.slashByte] := by decide
  rw [join, hp, if_neg Bool.false_ne_true, if_pos hneeds]
  simp [bytes, hslash]

/-- The way of two paths with a slash in between is the way of the one and that of the other. -/
theorem Route.allHops_append_slash {p q : Bytes} (hp : p.getLast? ≠ some slashByte) (hq : q ≠ []) :
    (ofBytes (p ++ slashByte :: q)).allHops = (ofBytes p).allHops ++ (ofBytes q).allHops := by
  have hends : (p ++ slashByte :: q).getLast? = q.getLast? := by
    rw [List.getLast?_append_of_ne_nil _ (List.cons_ne_nil _ _), List.getLast?_cons_of_ne_nil hq]
  unfold ofBytes allHops
  simp only [hends, hopsOf_append_slash, beq_eq_false_iff_ne.2 hp, if_neg Bool.false_ne_true]
  split
  · rw [List.append_assoc]
  · rfl

namespace Store

open Node

variable {top : Node} {place d goal : List Name} {hops more : List Hop} {s : Store}

theorem walk_mono {m n : Nat} {follow : Bool} (hmn : m ≤ n) (h : walk top follow m place hops = .ok (.taken goal)) :
    walk top follow n place hops = .ok (.taken goal) := by
  induction m generalizing n place hops with
  | zero =>
    cases n with
    | zero => exact h
    | succ n => exact walkWith_gains (.refl top) (fun _ _ h => by cases h) h
  | succ m ih =>
    cases n with
    | zero => omega
    | succ n => exact walkWith_gains (.refl top) (fun _ _ h => ih (by omega) h) h

/-- A walk goes on from where its beginning leads as a walk that starts there. -/
theorem walkWith_rest {jump : List Name → List Hop → Except Errno Spot} {goesOn : Prop} {spot : Spot}
    (hjump : ∀ place hops, jump place hops = .ok (.taken d) → jump place (hops ++ more) = .ok spot → goesOn)
    (hend : walkWith jump top true d more = .ok spot → goesOn) (h : walkWith jump top true place hops = .ok (.taken d))
    (hall : walkWith jump top true place (hops ++ more) = .ok spot) : goesOn := by
  induction hops generalizing place with
  | nil =>
    cases h
    exact hend hall
  | cons hop rest ih =>
    obtain ⟨hplace, hshort, ⟨hdirect, hnext⟩ | ⟨_, _, _, _, hspot⟩ | ⟨name, target, rfl, hlink⟩⟩ := walkWith_cons h
    · rw [List.cons_append, walkWith_direct hplace hdirect] at hall
      exact ih hnext hall
    · cases hspot
    · rw [walkWith_link hplace hshort hlink, Bool.not_true, Bool.and_false] at h
      rw [List.cons_append, walkWith_link hplace hshort hlink, Bool.not_true, Bool.and_false,
        ← List.append_assoc] at hall
      exact hjump _ _ h hall

theorem walk_rest {n : Nat} (h : walk top true n place hops = .ok (.taken d))
    (hall : walk top true n place (hops ++ more) = .ok (.taken goal)) :
    walk top true n d more = .ok (.taken goal) := by
  induction n generalizing place hops with
  | zero => exact walkWith_rest (fun _ _ h => by cases h) id h hall
  | succ n ih =>
    -- the walk from there on has all the links left that the beginning has not used up
    refine walkWith_rest (fun place hops h hall => ?_) id h hall
    exact walk_mono (Nat.le_succ n) (ih h hall)

theorem placeOf_of_isDir {path : Bytes} (h : s.isDir path = true) : ∃ d, s.placeOf true path = .ok d := by
  unfold isDir at h
  cases hnode : s.nodeAt true path with
  | error fault =>
    rw [hnode] at h
    cases h
  | ok node =>
    obtain ⟨d, hplace, -⟩ := nodeAt_eq_ok.1 hnode
    exact ⟨d, hplace⟩

/-- An absolute path leads to the same node from every directory. -/
theorem nodeAt_of_absolute {path : Bytes} (h : path.head? = some Route.slashByte) (toTarget : Bool)
    (cwd : List Name) : nodeAt { s with cwd } toTarget path = s.nodeAt toTarget path := by
  unfold nodeAt placeOf locate
  cases hread : Route.read path with
  | error fault => rfl
  | ok r =>
    obtain ⟨-, -, rfl⟩ := Route.read_eq_ok hread
    have habs : (Route.ofBytes path).absolute = true := by simp [Route.ofBytes, h]
    simp only [Store.follow, origin, habs, if_true]

/-- What stands at a relative path put after a directory's stands at the path seen from the directory. -/
theorem nodeAt_of_join {dir p : Path} (hneeds : dir.needsSlash = true)
    (hlast : dir.bytes.getLast? ≠ some Route.slashByte) (hp : p.isAbsolute = false) (hne : p.text ≠ "")
    (hdir : s.placeOf true dir.bytes = .ok d) {node : Node} (h : s.nodeAt true (dir.join p).bytes = .ok node) :
    nodeAt { s with cwd := d } true p.bytes = .ok node := by
  have hpbytes : p.bytes ≠ [] := Path.bytes_ne_nil hne
  rw [Path.bytes_join hneeds hp] at h
  obtain ⟨goal, hplace, hget⟩ := nodeAt_eq_ok.1 h
  obtain ⟨_, hread, hwalk⟩ := placeOf_eq_ok.1 hplace
  obtain ⟨_, hreaddir, hwalkdir⟩ := placeOf_eq_ok.1 hdir
  obtain ⟨hnul, hlength, rfl⟩ := Route.read_eq_ok hread
  obtain ⟨-, -, rfl⟩ := Route.read_eq_ok hreaddir
  have horigin : s.origin (Route.ofBytes (dir.bytes ++ Route.slashByte :: p.bytes)) =
      s.origin (Route.ofBytes dir.bytes) := by
    have hdirne : dir.bytes ≠ [] := Path.bytes_ne_nil fun hempty => by simp [Path.needsSlash, hempty] at hneeds
    unfold origin Route.ofBytes
    rw [List.head?_append_of_ne_nil _ hdirne]
  rw [Route.allHops_append_slash hlast hpbytes, horigin] at hwalk
  refine nodeAt_eq_ok.2 ⟨goal, placeOf_eq_ok.2 ⟨Route.ofBytes p.bytes, ?_, ?_⟩, hget⟩
  · have hshort : ¬Route.lengthLimit ≤ p.bytes.length := by
      rw [List.length_append, List.length_cons] at hlength
      omega
    rw [Route.read, if_neg (fun h => hnul (by simp [h])), if_neg hpbytes, if_neg hshort]
  · have hrel : (Route.ofBytes p.bytes).absolute = false :=
      beq_eq_false_iff_ne.2 fun hhead => by
        rw [Path.isAbsolute_of_head_bytes hhead] at hp
        cases hp
    rw [origin, hrel, if_neg Bool.false_ne_true]
    exact walk_rest hwalkdir hwalk

end Store

/-! ## Starting a program -/

namespace Shell

theorem Text.mem_ofString {program : String} (h : '/' ∈ program.toList) : '/' ∈ Text.ofString program :=
  List.mem_map.2 ⟨Bytes.ofChar '/', (Bytes.mem_ofString_iff (by decide)).2 h, by decide⟩

/-- A program that is called by a path is not looked for. -/
theorem findIn_of_path {s : Store} {search name : Text} (h : '/' ∈ name) : findIn s search name = .ok name := by
  rw [findIn, if_pos (by simpa using h)]

/-- A program that is called by its name is looked for in the same places from every directory, when absolute paths
say where. -/
theorem findIn_of_absolute {search : Text} (hsearch : ∀ dir ∈ Text.splitAt ':' search, dir.head? = some '/')
    (name : Text) (s : Store) (cwd : List Name) : findIn { s with cwd } search name = findIn s search name := by
  have hsame : ∀ path ∈ pathsIn search name, programAt { s with cwd } path = programAt s path := by
    intro path hpath
    obtain ⟨dir, hdir, rfl⟩ := List.mem_map.1 hpath
    obtain ⟨rest, rfl⟩ := List.head?_eq_some_iff.1 (hsearch dir hdir)
    rw [if_neg (by simp), programAt, Store.nodeAt_of_absolute rfl]
    rfl
  have hfound : (pathsIn search name).find? (fun path => programAt { s with cwd } path = some true) =
      (pathsIn search name).find? (fun path => programAt s path = some true) :=
    List.find?_congr fun path hpath => by rw [hsame path hpath]
  have hrefused : (pathsIn search name).any (fun path => programAt { s with cwd } path = some false) =
      (pathsIn search name).any (fun path => programAt s path = some false) := by
    rw [Bool.eq_iff_iff, List.any_eq_true, List.any_eq_true]
    exact exists_congr fun path => and_congr_right fun hpath => by rw [hsame path hpath]
  simp only [findIn, hfound, hrefused]

/-- The usual places are such ones. -/
example : ∀ dir ∈ Text.splitAt ':' usualPath, dir.head? = some '/' := by decide

theorem openProgram_eq_ok {s : Store} {path : Text} {content : Content} :
    openProgram s path = .ok content ↔ s.nodeAt true path.bytes = .ok (.file content true) := by
  rw [openProgram]
  split <;> simp_all

/-- A program that was started by a path stands there in an executable file. -/
theorem file_of_startHere {search : Text} {programs : Programs} {c : Call} (hpath : '/' ∈ c.program.toList)
    {here : Store} {ended : Ended} (h : startHere search programs c here = .ok ended) :
    ∃ content, here.nodeAt true (Bytes.ofString c.program) = .ok (.file content true) := by
  cases hfile : openProgram here (Text.ofString c.program) with
  | error e => simp [startHere, findIn_of_path (Text.mem_ofString hpath), hfile, bind, Except.bind] at h
  | ok content =>
    rw [openProgram_eq_ok, Text.ofString, Text.bytes_ofBytes] at hfile
    exact ⟨content, hfile⟩

end Shell

theorem Request.isName_workName (r : Request) : IsName (Bytes.ofString r.raw.workName) := by
  obtain ⟨mode, version, sourceDir, blenderDir, quiet⟩ := r
  cases mode with
  | release => exact Layout.isName_work version
  | develop => exact Layout.isName_release

namespace Call

/-- What the program of a call is to the system if it is called by a path: the file there, seen from the directory
the call runs in. -/
def programFile (c : Call) (s : Store) : Except IoFault Node :=
  match s.placeOf true c.cwd.bytes with
  | .error fault => .error fault
  | .ok place => Store.nodeAt { s with cwd := place } true (Bytes.ofString c.program)

/-- By a path nothing is started but an executable file. -/
theorem programFile_of_started {c : Call} (hpath : '/' ∈ c.program.toList) {search : Shell.Text}
    {programs : Shell.Programs} {s : Store} {status : WaitStatus}
    (h : (Shell.callWith search programs c s).result = .ok status) :
    ∃ content, c.programFile s = .ok (.file content true) := by
  unfold Shell.callWith at h
  dsimp only at h
  split at h
  · cases h
  split at h
  · rename_i place hplace _
    cases hstarted : Shell.startHere search programs c { s with cwd := place } with
    | error e =>
      rw [hstarted] at h
      cases h
    | ok ended =>
      rw [programFile, hplace]
      exact Shell.file_of_startHere hpath hstarted
  · cases h
  · cases h

/-! ## The tools of a run -/

/-- The setting a call of a run takes its program from. -/
inductive IsFor (c : Config) : Config.Setting → Call → Prop
  | generator (mode : Mode) (version : Version) (sourceDir blenderDir cwd : Path) :
      IsFor c .shell (.generator c mode version sourceDir blenderDir cwd)
  | readme (cwd : Path) : IsFor c .pandoc (.readme c cwd)
  | setup (command : SetupCommand) (cwd : Path) : IsFor c .python (.setup c command cwd)

/-- How the system starts a call that runs in the directory `dir` and whose program is given as `program`. -/
structure StartsIn (c : Call) (dir : Path) (program : String) : Prop where
  program_eq : c.program = program
  cwd_eq : c.cwd = dir
  /-- A bare name is looked for in the same places from every directory, wherever absolute paths say that it is
  looked for. -/
  named : '/' ∉ program.toList → ∀ search, (∀ part ∈ Shell.Text.splitAt ':' search, part.head? = some '/') →
    ∀ (s : Store) (cwd : List Name), Shell.findIn { s with cwd } search (Shell.Text.ofString program) =
      Shell.findIn s search (Shell.Text.ofString program)
  /-- An absolute path leads to the same file from every directory. -/
  absolute : Path.isAbsolute ⟨program⟩ = true → ∀ s : Store, s.isDir dir.bytes = true →
    c.programFile s = s.nodeAt true (Path.bytes ⟨program⟩)
  /-- A relative path is put after the directory the call runs in. -/
  relative : Path.isAbsolute ⟨program⟩ = false → program ≠ "" → ∀ (s : Store) (node : Node),
    s.isDir dir.bytes = true → s.nodeAt true (dir.join ⟨program⟩).bytes = .ok node → c.programFile s = .ok node
  /-- By a path nothing is started but an executable file that stands there, whatever programs do. -/
  started : '/' ∈ program.toList → ∀ search programs (s : Store) status,
    (Shell.callWith search programs c s).result = .ok status → ∃ content, c.programFile s = .ok (.file content true)

theorem startsIn (c : Call) {root : Path} {name : String} (hname : IsName (Bytes.ofString name))
    (hcwd : c.cwd = root / name) : c.StartsIn (root / name) c.program where
  program_eq := rfl
  cwd_eq := hcwd
  named _ search hsearch s cwd := Shell.findIn_of_absolute hsearch _ s cwd
  absolute habsolute s hdir := by
    obtain ⟨d, hplace⟩ := Store.placeOf_of_isDir hdir
    rw [programFile, hcwd, hplace]
    exact Store.nodeAt_of_absolute (Path.head_bytes habsolute) true d
  relative hrelative hne s node hdir hnode := by
    obtain ⟨d, hplace⟩ := Store.placeOf_of_isDir hdir
    rw [programFile, hcwd, hplace]
    exact Store.nodeAt_of_join (Path.needsSlash_div hname) (Path.getLast_bytes_div hname) hrelative hne hplace hnode
  started hpath search programs s status hok := programFile_of_started hpath hok

/-- Every call of a plan is for a tool, whose program is the configured one, and runs in the run's directory. -/
theorem startsIn_of_mem_plan {r : Request} {given : Config} {root : Path} {call : Call}
    (h : call ∈ r.plan (given.resolvedAgainst root) root) : ∃ tool,
      IsFor (given.resolvedAgainst root) tool call ∧ StartsIn call (root / r.raw.workName) (given.get tool) := by
  have hname := r.isName_workName
  obtain rfl | rfl | ⟨command, rfl⟩ := Request.call_of_mem_plan h
  · exact ⟨.shell, .generator r.mode r.version r.sourceDir r.blenderDir _, startsIn _ hname rfl⟩
  · exact ⟨.pandoc, .readme _, startsIn _ hname rfl⟩
  · exact ⟨.python, .setup command _, startsIn _ hname rfl⟩

end Call

/-- Main statement: every call of a run is for one of the tools, has the program its configuration gives, as it is
written there, and is started in the directory of the run. -/
theorem programs_start_in_work_directory (e : Executor σ) (r : Request) (root : Path) (label : Label)
    (s : Session σ) : ∃ events,
      (package e r root label s).2.history = s.history ++ events ∧
      ∀ event ∈ events, ∃ given tool, Config.loadRaw s.store root = .ok given ∧
        Call.IsFor (given.resolvedAgainst root) tool event.call ∧
        Call.StartsIn event.call (root / r.raw.workName) (given.get tool) := by
  obtain ⟨events, hhistory, htrace⟩ := package_trace e r root label s
  refine ⟨events, hhistory, fun event hevent => ?_⟩
  obtain ⟨given, hload, hcall⟩ := htrace.planned hevent
  obtain ⟨tool, htool, hstarts⟩ := Call.startsIn_of_mem_plan hcall
  exact ⟨given, tool, hload, htool, hstarts⟩

/-- A small checkout whose configuration names the shell by a relative path, at which an executable file stands. -/
def shellCheckout : Node :=
  let settings : Node := .ofBytes (Bytes.ofString "shell = \"tools/sh\"")
  let r := Bytes.ofString "r"
  let tools := Bytes.ofString "tools"
  ((smallCheckout.put [r] (Bytes.ofString Config.fileName) settings).put [r] tools .emptyDir).put [r, tools]
    (Bytes.ofString "sh") (.file (.plain (Bytes.ofString "#!/bin/sh")) true)

/-- The program is called by the path as it is written and looked for in the directory of the run, where nothing
stands, so the run fails at its first call, though the path leads from the root to an executable file. -/
theorem relative_shell_is_not_found :
    let s : Store := ⟨shellCheckout, []⟩
    Shell.programAt s (Shell.Text.ofString (Path.join ⟨"/r"⟩ ⟨"tools/sh"⟩).text) = some true ∧
    (package (Executor.putting smallTree) smallRequest ⟨"/r"⟩ smallLabel (.start s () ⟨none, []⟩ false)).2.history.map
        (fun event => (event.call.program, event.call.cwd)) =
      [("tools/sh", ⟨"/r/tmp-2.79"⟩), ("pandoc", ⟨"/r/tmp-2.79"⟩), ("python3", ⟨"/r/tmp-2.79"⟩),
        ("python3", ⟨"/r/tmp-2.79"⟩)] ∧
    errorOf (package Shell.executor smallRequest ⟨"/r"⟩ smallLabel (.start s () ⟨none, []⟩ false)).1 =
      some (.io (.os .notFound)) := by
  decide +kernel

end StubRelease
