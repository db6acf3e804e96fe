/-
# StubRelease.Proofs.Tree.Targets -- the place that links lead to

A path that is opened, for reading or for writing, leads to one place when links are followed, whether something
stands there or not. That place depends on the directories and links of a tree and on nothing else, so it stays while
files are written (`target_of_ways`). Main statement: a copy writes the place its destination leads to and nothing
else, and it writes there what the source held, unless the source leads to the same place (`copyFile_cases`).
-/
import StubRelease.Proofs.Tree.Accord
import StubRelease.Proofs.Tree.Writing

namespace StubRelease

open Sequence Node

/-- The place a walk ends at, taken or free. -/
def Spot.place : Spot → List Name
  | .taken place => place
  | .free above name => above ++ [name]

/-- Writing a file where neither a directory nor a link stands leaves directories and links as they are. -/
theorem Node.SameWays.of_look {n m : Node} {q : List Name} (helsewhere : ∀ p, p ≠ q → m.look p = n.look p)
    (hn : LeadsNowhere (n.look q)) (hm : LeadsNowhere (m.look q)) : n.SameWays m := by
  have hkeeps {k l : Node} (h : ∀ p, p ≠ q → l.look p = k.look p) (hk : LeadsNowhere (k.look q)) {p : List Name}
      {seen : Sight} (hfile : ∀ content executable, seen ≠ .file content executable) (hp : k.look p = some seen) :
      l.look p = some seen := by
    rw [h p, hp]
    rintro rfl
    obtain hnone | ⟨content, executable, hseen⟩ := hk
    · simp [hp] at hnone
    · exact hfile content executable (Option.some.inj (hp.symm.trans hseen))
  exact ⟨⟨fun _ => hkeeps helsewhere hn (by simp), fun _ _ => hkeeps helsewhere hn (by simp)⟩,
    ⟨fun _ => hkeeps (fun p hp => (helsewhere p hp).symm) hm (by simp),
      fun _ _ => hkeeps (fun p hp => (helsewhere p hp).symm) hm (by simp)⟩⟩

namespace Store

/-! ## Walks -/

variable {top other : Node} {place : List Name} {jump jump' : List Name → List Hop → Except Errno Spot}
  {hops : List Hop} {spot : Spot}

/-- A last name that is not that of a link ends a walk at its own place. -/
theorem walkWith_last (jump : List Name → List Hop → Except Errno Spot) {name : Name} (hplace : top.look place = some .dir)
    (hshort : name.length ≤ Route.nameLimit) (hlink : ∀ target, top.look (place ++ [name]) ≠ some (.link target)) :
    ∃ spot, walkWith jump top true place [.into name] = .ok spot ∧ spot.place = place ++ [name] := by
  rw [walkWith_name jump hplace hshort fun _ => hlink]
  refine ⟨_, rfl, ?_⟩
  split <;> rfl

/-- A walk ends at the same place in any tree with the same directories and links. -/
theorem walkWith_ways (h : top.SameWays other)
    (hjump : ∀ place hops spot, jump place hops = .ok spot → ∃ spot', jump' place hops = .ok spot' ∧ spot'.place = spot.place)
    (hwalk : walkWith jump top true place hops = .ok spot) :
    ∃ spot', walkWith jump' other true place hops = .ok spot' ∧ spot'.place = spot.place := by
  -- on the hops; the last entry need not be there in both trees, so only the places are compared
  induction hops generalizing place with
  | nil =>
    cases hwalk
    exact ⟨_, rfl, rfl⟩
  | cons hop rest ih =>
    obtain ⟨hplace, hshort, hcases⟩ := walkWith_cons hwalk
    have hplace' := h.there.dirs _ hplace
    have hnolink {name : Name} (hlink : ∀ target, top.look (place ++ [name]) ≠ some (.link target)) (target : Bytes) :
        other.look (place ++ [name]) ≠ some (.link target) := fun hseen => hlink target (h.back.links _ _ hseen)
    obtain ⟨hdirect, hnext⟩ | ⟨name, rfl, hnone, rfl, rfl⟩ | ⟨name, target, rfl, hlink⟩ := hcases
    · cases hop with
      | here =>
        have hdirect' : Hop.here.Direct other place := ⟨hshort, by rintro _ ⟨⟩⟩
        rw [walkWith_direct hplace' hdirect']
        exact ih hnext
      | up =>
        have hdirect' : Hop.up.Direct other place := ⟨hshort, by rintro _ ⟨⟩⟩
        rw [walkWith_direct hplace' hdirect']
        exact ih hnext
      | into name =>
        cases rest with
        | nil =>
          cases hnext
          exact walkWith_last jump' hplace' hshort (hnolink (hdirect.2 name rfl).2)
        | cons more rest =>
          -- the walk goes on, so the entry is a directory in both trees
          have hdir : other.look (place ++ [name]) = some .dir := h.there.dirs _ (walkWith_cons hnext).1
          rw [walkWith_direct hplace' (Hop.direct_into hshort hdir (by simp))]
          exact ih hnext
    · exact walkWith_last jump' hplace' hshort (hnolink (by simp [hnone]))
    · rw [walkWith_link hplace hshort hlink, Bool.not_true, Bool.and_false] at hwalk
      rw [walkWith_link hplace' hshort (h.there.links _ _ hlink), Bool.not_true, Bool.and_false]
      exact hjump _ _ _ hwalk

theorem walk_ways (h : top.SameWays other) (n : Nat) (hwalk : walk top true n place hops = .ok spot) :
    ∃ spot', walk other true n place hops = .ok spot' ∧ spot'.place = spot.place := by
  induction n generalizing place hops spot with
  | zero => exact walkWith_ways h (fun _ _ _ h => by cases h) hwalk
  | succ n ih => exact walkWith_ways h (fun _ _ _ h => ih h) hwalk

/-! ## Paths -/

variable {s t : Store} {path a b : Bytes} {p q : List Name} {node : Node}

/-- Where a path leads when links are followed, whether something stands there or not. -/
def target (s : Store) (path : Bytes) : Option (List Name) := (s.locate true path).toOption.map Spot.place

/-- Two paths lead to one place. -/
def SameTarget (s : Store) (a b : Bytes) : Prop := s.target a ≠ none ∧ s.target a = s.target b

instance (s : Store) (a b : Bytes) : Decidable (s.SameTarget a b) := inferInstanceAs (Decidable (_ ∧ _))

theorem target_of_locate (h : s.locate true path = .ok spot) : s.target path = some spot.place := by
  rw [target, h]
  rfl

theorem target_eq_some : s.target path = some p ↔ ∃ r spot, Route.read path = .ok r ∧
    walk s.top true linkLimit (s.origin r) r.allHops = .ok spot ∧ spot.place = p := by
  rw [target, locate]
  cases hread : Route.read path with
  | error fault => simp [Except.toOption]
  | ok r =>
    cases hwalk : walk s.top true linkLimit (s.origin r) r.allHops <;> simp [follow, hwalk, Except.toOption]

theorem target_of_placeOf (h : s.placeOf true path = .ok p) : s.target path = some p := by
  obtain ⟨r, hread, hwalk⟩ := placeOf_eq_ok.1 h
  exact target_eq_some.2 ⟨r, .taken p, hread, hwalk, rfl⟩

/-- Where paths lead depends on directories and links only. -/
theorem target_of_ways (h : s.top.SameWays t.top) (hcwd : t.cwd = s.cwd) (path : Bytes) :
    t.target path = s.target path := by
  have hmono {s t : Store} (h : s.top.SameWays t.top) (hcwd : t.cwd = s.cwd) {p : List Name}
      (hp : s.target path = some p) : t.target path = some p := by
    obtain ⟨r, spot, hread, hwalk, rfl⟩ := target_eq_some.1 hp
    obtain ⟨spot', hwalk', hplace⟩ := walk_ways h _ hwalk
    refine target_eq_some.2 ⟨r, spot', hread, ?_, hplace⟩
    rw [origin, hcwd]
    exact hwalk'
  refine Option.ext fun p => ⟨fun hp => ?_, hmono h hcwd⟩
  exact hmono ⟨h.back, h.there⟩ hcwd.symm hp

/-- What stands at a path is what stands at the place it leads to. -/
theorem nodeAt_iff_target : s.nodeAt true path = .ok node ↔ ∃ p, s.target path = some p ∧ s.top.get? p = some node := by
  rw [nodeAt, placeOf, target]
  cases hspot : s.locate true path with
  | error fault => simp [Except.toOption]
  | ok spot =>
    cases spot with
    | taken place => cases hnode : s.top.get? place <;> simp [Except.toOption, Spot.place, hnode]
    | free dir name => simp [Except.toOption, Spot.place, look_eq_none.1 (look_of_locate hspot).2]

theorem WritesTo.target (h : s.WritesTo path q) : s.target path = some q := by
  cases h with
  | free spot => exact target_of_locate spot
  | file spot _ => exact target_of_locate spot

end Store

/-! ## Copies -/

namespace Files

variable {s t : Store} {source dest path : Bytes}

/-- A file that was opened is written where its path leads. -/
theorem writesTo_of_emptyFile {place : List Name} (h : emptyFile path s = (.ok place, t)) : s.WritesTo path place := by
  obtain ⟨spot, u, hspot, hmade⟩ := bind_eq_ok.1 h
  obtain ⟨rfl, hlocate, -⟩ := writeSpot_eq_ok hspot
  cases spot with
  | free dir name =>
    obtain ⟨hplace, -⟩ := outcome_inj.1 hmade
    obtain rfl := Except.ok.inj hplace
    exact .free hlocate
  | taken found =>
    simp only [run_bind, run_get] at hmade
    cases hnode : u.top.get? found with
    | none => simp [hnode, refuse_eq] at hmade
    | some node =>
      cases node with
      | dir _ => simp [hnode, refuse_eq] at hmade
      | link _ => simp [hnode, refuse_eq] at hmade
      | file _ _ =>
        rw [hnode] at hmade
        obtain ⟨hplace, -⟩ := outcome_inj.1 hmade
        obtain rfl := Except.ok.inj hplace
        exact .file hlocate (look_eq_file.2 hnode)

/-- What a copy has done that wrote the place `q`: the source held a file, and `q` holds what that held, unless it is
that file, which was emptied before it was read. -/
structure Copied (s : Store) (source dest : Bytes) (content : Content) (executable : Bool) (t : Store) : Prop where
  held : s.nodeAt true source = .ok (.file content executable)
  cwd : t.cwd = s.cwd
  ways : s.top.SameWays t.top
  elsewhere : ∀ p, s.target dest ≠ some p → t.top.look p = s.top.look p
  written : ∃ q, s.target dest = some q ∧
    t.top.look q = some (.file (if s.target source = some q then .plain [] else content) executable)

/-- A file is copied where its destination leads, if a file can be written there. -/
theorem copyFile_of_writesTo {origin q : List Name} {content : Content} {executable : Bool}
    (horigin : s.placeOf true source = .ok origin) (hfile : s.top.look origin = some (.file content executable))
    (hwrites : s.WritesTo dest q) :
    ∃ t, copyFile source dest s = (.ok (), t) ∧ Copied s source dest content executable t := by
  have hsource := Store.target_of_placeOf horigin
  have hdest := hwrites.target
  have hold : LeadsNowhere (s.top.look q) := hwrites.look
  obtain ⟨dir, name, old, rfl, hdir, hempty⟩ := emptyFile_of_writesTo hwrites
  have hnot : s.top.look (dir ++ [name]) ≠ some .dir := by
    obtain hnone | ⟨_, _, hseen⟩ := hold <;> simp [*]
  -- what is read of the source after the destination was emptied
  have hread : (s.top.put dir name (.file (.plain []) old)).get? origin =
      some (.file (if origin = dir ++ [name] then .plain [] else content)
        (if origin = dir ++ [name] then old else executable)) := by
    split
    · rename_i heq
      rw [heq, get?_put_self hdir]
    · rename_i hne
      rw [← look_eq_file, look_put_file hdir hnot _ _ hne, hfile]
  have hwritten (content : Content) :
      (s.top.put dir name (.file content executable)).look (dir ++ [name]) = some (.file content executable) :=
    look_put hdir name _ []
  refine ⟨s.put dir name (.file (if origin = dir ++ [name] then .plain [] else content) executable), ?_, ?_⟩
  · rw [copyFile, run_bind, ask_eq, horigin]
    simp only [run_bind, run_get, look_eq_file.1 hfile, hempty, Store.top_put, hread, run_modify, Store.replace_concat,
      Store.put_put]
  · refine ⟨Store.nodeAt_iff_target.2 ⟨origin, hsource, look_eq_file.1 hfile⟩, rfl, ?_, fun p hp => ?_,
      dir ++ [name], hdest, ?_⟩
    · exact .of_look (fun p hp => look_put_file hdir hnot _ _ hp) hold (.inr ⟨_, _, hwritten _⟩)
    · exact look_put_file hdir hnot _ _ fun heq => hp (heq ▸ hdest)
    · simp only [hsource, Option.some.injEq]
      exact hwritten _

/-- A copy writes the place its destination leads to, or nothing happens. -/
theorem copyFile_cases (source dest : Bytes) (s : Store) :
    (∃ fault, copyFile source dest s = (.error fault, s)) ∨
      ∃ content executable t, copyFile source dest s = (.ok (), t) ∧ Copied s source dest content executable t := by
  cases horigin : s.placeOf true source with
  | error fault =>
    rw [copyFile, run_bind, ask_eq, horigin]
    exact .inl ⟨fault, rfl⟩
  | ok origin =>
    by_cases hfile : ∃ content executable, s.top.look origin = some (.file content executable)
    · obtain ⟨content, executable, hfile⟩ := hfile
      cases hopen : emptyFile dest s with
      | mk result opened =>
        cases result with
        | ok q => exact .inr ⟨content, executable, copyFile_of_writesTo horigin hfile (writesTo_of_emptyFile hopen)⟩
        | error fault =>
          obtain rfl := emptyFile_of_error hopen
          rw [copyFile, run_bind, ask_eq, horigin]
          simp only [run_bind, run_get, look_eq_file.1 hfile, hopen]
          exact .inl ⟨fault, rfl⟩
    · rw [copyFile, run_bind, ask_eq, horigin]
      simp only [run_bind, run_get]
      cases hnode : s.top.get? origin with
      | none => exact .inl ⟨_, rfl⟩
      | some node =>
        cases node with
        | dir _ => exact .inl ⟨_, rfl⟩
        | link _ => exact .inl ⟨_, rfl⟩
        | file content executable => exact absurd ⟨content, executable, look_eq_file.2 hnode⟩ hfile

end Files

end StubRelease
