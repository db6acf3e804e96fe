/-
# StubRelease.Proofs.Tree.Opening -- writing a file in a tree with links

A file that is opened for writing may be found through a chain of links. Wherever it is, only a file is
made or emptied there: the directories and links of the tree are the same before and after
(`emptyFile_ways`), so every path to a directory leads where it led. If the entry that the path spells
is no link itself, the file is that entry (`emptyFile_entry`). The last part is about moving an entry.
-/
import StubRelease.Proofs.Tree.Steps

namespace StubRelease

open Sequence

namespace Node

/-- Two trees with the same directories and the same links. -/
structure SameWays (n m : Node) : Prop where
  there : n.KeepsWays m
  back : m.KeepsWays n

namespace SameWays

variable {n m k : Node}

theorem refl (n : Node) : SameWays n n := ⟨.refl n, .refl n⟩

theorem trans (h : SameWays n m) (h' : SameWays m k) : SameWays n k :=
  ⟨h.there.trans h'.there, h'.back.trans h.back⟩

theorem put {place : List Name} {name : Name} (hplace : n.look place = some .dir)
    (hdir : n.look (place ++ [name]) ≠ some .dir)
    (hlink : ∀ target, n.look (place ++ [name]) ≠ some (.link target)) (content : Content)
    (executable : Bool) : SameWays n (n.put place name (.file content executable)) :=
  ⟨.put hdir hlink _, .of_put_file hplace name content executable⟩

end SameWays

end Node

namespace Store

open Node

/-- Filling a file leaves directories and links as they are. -/
theorem fill_ways (s : Store) (place : List Name) (content : Content) :
    s.top.SameWays (s.fill place content).top ∧ (s.fill place content).cwd = s.cwd := by
  rw [fill]
  cases hnode : s.top.get? place with
  | none => exact ⟨.refl _, rfl⟩
  | some node =>
    cases node with
    | dir _ => exact ⟨.refl _, rfl⟩
    | link _ => exact ⟨.refl _, rfl⟩
    | file old executable =>
      dsimp only
      rw [replace]
      cases hlast : place.getLast? with
      | none => exact ⟨.refl _, rfl⟩
      | some name =>
        obtain ⟨dir, rfl⟩ := List.getLast?_eq_some_iff.1 hlast
        have hseen : s.top.look (dir ++ [name]) = some (.file old executable) := look_eq_file.2 hnode
        have hdir : s.top.look dir = some .dir := look_eq_dir_of_below hseen
        rw [List.dropLast_concat]
        exact ⟨.put hdir (by simp [hseen]) (by simp [hseen]) _ _, rfl⟩

theorem look_of_locate {s : Store} {toTarget : Bool} {path : Bytes} {dir : List Name} {name : Name}
    (h : s.locate toTarget path = .ok (.free dir name)) :
    s.top.look dir = some .dir ∧ s.top.look (dir ++ [name]) = none := by
  rw [locate] at h
  cases hread : Route.read path with
  | error fault =>
    rw [hread] at h
    cases h
  | ok r =>
    rw [hread] at h
    cases hwalk : s.follow toTarget r with
    | error e => simp [hwalk] at h
    | ok spot =>
      simp only [hwalk] at h
      obtain rfl := Except.ok.inj h
      exact walk_free _ hwalk

end Store

namespace Files

open Node

variable {s t : Store} {p : Path} {text : String}

/-- Looking for the spot of a file changes nothing; the spot is the one the path leads to. -/
theorem writeSpot_eq_ok {path : Bytes} {spot : Spot} (h : writeSpot path s = (.ok spot, t)) :
    t = s ∧ s.locate true path = .ok spot ∧ ∃ found, s.place path = .ok found := by
  rw [writeSpot, run_bind, ask_eq] at h
  cases hplace : s.place path with
  | error fault =>
    rw [hplace] at h
    cases (outcome_inj.1 h).1
  | ok found =>
    rw [hplace] at h
    obtain ⟨dir, last, slash⟩ := found
    cases last with
    | fixed _ => cases (outcome_inj.1 h).1
    | name name =>
      cases slash with
      | true => cases (outcome_inj.1 h).1
      | false =>
        simp only [run_bind, run_get] at h
        cases hspot : s.locate true path with
        | ok other =>
          rw [hspot] at h
          obtain ⟨hspots, rfl⟩ := outcome_inj.1 h
          obtain rfl := Except.ok.inj hspots
          exact ⟨rfl, rfl, _, rfl⟩
        | error fault =>
          simp only [hspot] at h
          split at h
          · cases (outcome_inj.1 h).1
          · cases (outcome_inj.1 h).1

/-- Looking for the spot of a file changes nothing, found or not. -/
theorem writeSpot_state (path : Bytes) (s : Store) : (writeSpot path s).2 = s := by
  rw [writeSpot, run_bind, ask_eq]
  cases s.place path with
  | error fault => rfl
  | ok found =>
    obtain ⟨dir, last, slash⟩ := found
    cases last with
    | fixed _ => rfl
    | name name =>
      cases slash with
      | true => rfl
      | false =>
        simp only [run_bind, run_get]
        cases s.locate true path with
        | ok spot => rfl
        | error fault =>
          dsimp only
          split <;> rfl

/-- A file that cannot be opened is not touched. -/
theorem emptyFile_of_error {path : Bytes} {s t : Store} {fault : IoFault}
    (h : emptyFile path s = (.error fault, t)) : t = s := by
  have hstate := writeSpot_state path s
  rw [emptyFile, run_bind] at h
  cases hspot : writeSpot path s with
  | mk result u =>
    rw [hspot] at h hstate
    subst hstate
    cases result with
    | error other => exact (outcome_inj.1 h).2.symm
    | ok spot =>
      cases spot with
      | free dir name => cases (outcome_inj.1 h).1
      | taken place =>
        simp only [run_bind, run_get] at h
        cases hnode : u.top.get? place with
        | none =>
          rw [hnode] at h
          exact (outcome_inj.1 h).2.symm
        | some node =>
          rw [hnode] at h
          cases node with
          | dir _ => exact (outcome_inj.1 h).2.symm
          | link _ => exact (outcome_inj.1 h).2.symm
          | file _ _ => cases (outcome_inj.1 h).1

/-- Opening a file for writing leaves directories and links as they are. -/
theorem emptyFile_ways {path : Bytes} {place : List Name} (h : emptyFile path s = (.ok place, t)) :
    s.top.SameWays t.top ∧ t.cwd = s.cwd := by
  obtain ⟨spot, u, hspot, hmade⟩ := bind_eq_ok.1 h
  obtain ⟨rfl, hlocate, -⟩ := writeSpot_eq_ok hspot
  cases spot with
  | free dir name =>
    obtain ⟨hdir, hnone⟩ := Store.look_of_locate hlocate
    obtain ⟨-, rfl⟩ := outcome_inj.1 hmade
    exact ⟨.put hdir (by simp [hnone]) (by simp [hnone]) _ _, rfl⟩
  | taken at_ =>
    simp only [run_bind, run_get] at hmade
    cases hnode : u.top.get? at_ with
    | none => simp [hnode, refuse_eq] at hmade
    | some node =>
      cases node with
      | dir _ => simp [hnode, refuse_eq] at hmade
      | link _ => simp [hnode, refuse_eq] at hmade
      | file _ _ =>
        rw [hnode] at hmade
        obtain ⟨-, rfl⟩ := outcome_inj.1 hmade
        exact u.fill_ways at_ _

/-- A path of an entry that is no link is opened at the entry. -/
theorem emptyFile_entry (hname : IsName (Bytes.ofString text)) {place : List Name}
    (h : emptyFile (p / text).bytes s = (.ok place, t)) :
    ∃ d, s.Finds p text d ∧ (Bytes.ofString text).length ≤ Route.nameLimit ∧
      ((∀ target, s.top.look (d ++ [Bytes.ofString text]) ≠ some (.link target)) →
        place = d ++ [Bytes.ofString text] ∧ s.top.look (d ++ [Bytes.ofString text]) ≠ some .dir ∧
          t = s.put d (Bytes.ofString text) (.file (.plain [])
            (executableOf (s.top.get? (d ++ [Bytes.ofString text]))))) := by
  obtain ⟨spot, u, hspot, hmade⟩ := bind_eq_ok.1 h
  obtain ⟨rfl, hlocate, found, hplace⟩ := writeSpot_eq_ok hspot
  obtain ⟨d, hfinds, -⟩ := (Store.place_div_eq_ok hname).1 hplace
  have hshort := Store.short_of_locate hname hfinds hlocate
  refine ⟨d, hfinds, hshort, fun hlink => ?_⟩
  rw [Store.locate_div hname hfinds hshort fun _ => hlink] at hlocate
  obtain rfl := Except.ok.inj hlocate
  rw [Node.look, Option.isSome_map] at hmade
  cases hnode : u.top.get? (d ++ [Bytes.ofString text]) with
  | none =>
    rw [hnode] at hmade
    obtain ⟨hat, rfl⟩ := outcome_inj.1 hmade
    exact ⟨(Except.ok.inj hat).symm, by simp [look_eq_none.2 hnode], rfl⟩
  | some node =>
    simp only [hnode, Option.isSome_some, if_true, run_bind, run_get] at hmade
    cases node with
    | dir _ => simp [refuse_eq] at hmade
    | link _ => simp [refuse_eq] at hmade
    | file _ executable =>
      obtain ⟨hat, rfl⟩ := outcome_inj.1 hmade
      refine ⟨(Except.ok.inj hat).symm, by simp [look_eq_file.2 hnode], ?_⟩
      simp [Store.fill, hnode, executableOf]

/-! ## Moving -/

theorem look_of_place {path : Bytes} {found : Store.Place} (h : s.place path = .ok found) :
    s.top.look found.dir = some .dir := by
  obtain ⟨r, -, hplace⟩ := Store.place_eq_ok.1 h
  obtain ⟨d, hleads, rfl⟩ := Store.placeOfRoute_eq_ok.1 hplace
  exact hleads.dir

/-- What is moved stands at the destination afterwards. -/
theorem rename_lands {source dest : Bytes} (h : rename source dest s = (.ok (), t)) :
    ∃ d a asDir q b bsDir node, s.place source = .ok ⟨d, .name a, asDir⟩ ∧
      s.place dest = .ok ⟨q, .name b, bsDir⟩ ∧ s.top.get? (d ++ [a]) = some node ∧
      t.top.get? (q ++ [b]) = some node := by
  obtain ⟨fault, hfault⟩ | ⟨d, a, asDir, q, b, bsDir, node, hsource, hdest, -, -, hnode, hmoved⟩ :=
    rename_cases source dest s
  · rw [hfault] at h
    cases (outcome_inj.1 h).1
  · refine ⟨d, a, asDir, q, b, bsDir, node, hsource, hdest, hnode, ?_⟩
    obtain ⟨heq, hrename⟩ | ⟨hdown, -, -, -, hrename⟩ := hmoved
    · rw [hrename] at h
      obtain ⟨-, rfl⟩ := outcome_inj.1 h
      rw [← heq, hnode]
    · rw [hrename] at h
      obtain ⟨-, rfl⟩ := outcome_inj.1 h
      -- the directory of the destination is not below what is moved
      rw [Store.top_put, get?_put_self]
      rw [Store.top_drop, look_drop_elsewhere _ hdown]
      exact look_of_place hdest

end Files

end StubRelease
