/-
# StubRelease.Proofs.Tree.Writing -- paths that let a file be written

A file is written where its path leads when links are followed: at a file, or under a free name in a directory.
Main statement: at such a path a file can be opened, wherever the links on its way lead, and only that file is
touched (`emptyFile_of_writesTo`). A walk along a path has been along the path without its last step
(`walk_init`), so the directory that the last step is taken in is found, too.
-/
import StubRelease.Proofs.Tree.Gains
import StubRelease.Proofs.Tree.Opening

namespace StubRelease

open Sequence Node
open Route (hopsOf slashByte)

/-! ## Paths with a last step -/

/-- Bytes without a piece between slashes are slashes. -/
theorem Path.eq_slash_of_pieces {bs : Bytes} (h : ∀ piece ∈ pieces (· == slashByte) bs, piece = []) :
    ∀ b ∈ bs, b = slashByte := by
  induction bs with
  | nil => simp
  | cons first rest ih =>
    rw [pieces] at h
    cases hfirst : first == slashByte with
    | true =>
      rw [hfirst, if_pos rfl] at h
      intro b hb
      rcases List.mem_cons.1 hb with rfl | hb
      · exact beq_iff_eq.1 hfirst
      · exact ih (fun piece hpiece => h piece (List.mem_cons_of_mem _ hpiece)) b hb
    | false =>
      rw [hfirst] at h
      simp only [Bool.false_eq_true, if_false] at h
      split at h
      · exact absurd (h _ List.mem_cons_self) (by simp)
      · exact absurd (h _ List.mem_cons_self) (by simp)

/-- A path that does not end in a slash has a last step. -/
theorem Route.hopsOf_ne_nil {bs : Bytes} (hne : bs ≠ []) (hslash : bs.getLast? ≠ some slashByte) : hopsOf bs ≠ [] := by
  intro hnil
  have hpieces : ∀ piece ∈ Path.pieces (· == slashByte) bs, piece = [] := by
    intro piece hpiece
    have hnone := List.filterMap_eq_nil_iff.1 hnil piece hpiece
    rw [Hop.ofPiece?] at hnone
    split at hnone
    · assumption
    · split at hnone
      · cases hnone
      · split at hnone <;> cases hnone
  refine hslash ?_
  rw [List.getLast?_eq_some_getLast hne, Path.eq_slash_of_pieces hpieces _ (List.getLast_mem hne)]

/-- Every path that is read has a last hop; where it goes into an entry the path ends in the entry's name. -/
theorem Route.allHops_eq_concat {path : Bytes} {r : Route} (hread : Route.read path = .ok r) :
    ∃ front hop, r.allHops = front ++ [hop] ∧
      ∀ name, hop = .into name → r.slash = false ∧ r.hops = front ++ [.into name] := by
  obtain ⟨-, -, hroute⟩ := Route.read_eq_ok hread
  have hne : path ≠ [] := by
    rintro rfl
    cases hread
  rw [allHops]
  cases hslash : r.slash with
  | true => exact ⟨r.hops, .here, by simp, by rintro name ⟨⟩⟩
  | false =>
    have hhops : r.hops ≠ [] := by
      rw [hroute]
      refine hopsOf_ne_nil hne fun hlast => ?_
      rw [hroute] at hslash
      simp [ofBytes, hlast] at hslash
    obtain ⟨front, hop, hfront⟩ := List.eq_nil_or_concat r.hops |>.resolve_left hhops
    rw [List.concat_eq_append] at hfront
    refine ⟨front, hop, by simp [hfront], ?_⟩
    rintro name rfl
    exact ⟨rfl, hfront⟩

namespace Store

variable {top : Node} {place : List Name} {jump jump' : List Name → List Hop → Except Errno Spot} {hop : Hop}
  {hops : List Hop} {spot : Spot} {s : Store} {path : Bytes} {q : List Name}

/-! ## The last step of a walk -/

/-- A walk has been along its way without the last step, and was in a directory then. -/
theorem walkWith_init (hjump : ∀ place hops, jump place (hops ++ [hop]) = .ok spot →
      ∃ d, jump' place hops = .ok (.taken d) ∧ top.look d = some .dir)
    (h : walkWith jump top true place (hops ++ [hop]) = .ok spot) :
    ∃ d, walkWith jump' top true place hops = .ok (.taken d) ∧ top.look d = some .dir := by
  induction hops generalizing place with
  | nil => exact ⟨place, rfl, (walkWith_cons h).1⟩
  | cons first rest ih =>
    rw [List.cons_append] at h
    obtain ⟨hplace, hshort, ⟨hdirect, hnext⟩ | ⟨_, _, _, hnil, _⟩ | ⟨name, target, rfl, hlink⟩⟩ := walkWith_cons h
    · rw [walkWith_direct hplace hdirect]
      exact ih hnext
    · simp at hnil
    · -- the target of a link stands before the rest of the way, whose last step stays the last
      have hmore : (rest ++ [hop]).isEmpty = false := by simp
      rw [walkWith_link hplace hshort hlink, hmore, Bool.false_and, ← List.append_assoc] at h
      rw [walkWith_link hplace hshort hlink, Bool.not_true, Bool.and_false]
      exact hjump _ _ h

theorem walk_init (n : Nat) (h : walk top true n place (hops ++ [hop]) = .ok spot) :
    ∃ d, walk top true n place hops = .ok (.taken d) ∧ top.look d = some .dir := by
  induction n generalizing place hops with
  | zero => exact walkWith_init (fun _ _ h => by cases h) h
  | succ n ih => exact walkWith_init (fun _ _ h => ih h) h

/-- A walk whose last step goes into no entry ends at a directory. -/
theorem walkWith_fixed (hhop : ∀ name, hop ≠ .into name)
    (hjump : ∀ place hops, jump place (hops ++ [hop]) = .ok spot → ∃ d, spot = .taken d ∧ top.look d = some .dir)
    (h : walkWith jump top true place (hops ++ [hop]) = .ok spot) :
    ∃ d, spot = .taken d ∧ top.look d = some .dir := by
  induction hops generalizing place with
  | nil =>
    obtain ⟨hplace, -, ⟨-, hnext⟩ | ⟨name, rfl, -⟩ | ⟨name, _, rfl, -⟩⟩ := walkWith_cons h
    · refine ⟨hop.move place, (Except.ok.inj hnext).symm, ?_⟩
      cases hop with
      | here => exact hplace
      | into name => exact absurd rfl (hhop name)
      | up =>
        cases hlast : place.getLast? with
        | none =>
          obtain rfl := List.getLast?_eq_none_iff.1 hlast
          exact hplace
        | some last =>
          obtain ⟨front, rfl⟩ := List.getLast?_eq_some_iff.1 hlast
          rw [Hop.move, List.dropLast_concat]
          exact look_eq_dir_of_below hplace
    · exact absurd rfl (hhop name)
    · exact absurd rfl (hhop name)
  | cons first rest ih =>
    rw [List.cons_append] at h
    obtain ⟨hplace, hshort, ⟨-, hnext⟩ | ⟨_, _, _, hnil, _⟩ | ⟨name, target, rfl, hlink⟩⟩ := walkWith_cons h
    · exact ih hnext
    · simp at hnil
    · have hmore : (rest ++ [hop]).isEmpty = false := by simp
      rw [walkWith_link hplace hshort hlink, hmore, Bool.false_and, ← List.append_assoc] at h
      exact hjump _ _ h

theorem walk_fixed (hhop : ∀ name, hop ≠ .into name) (n : Nat)
    (h : walk top true n place (hops ++ [hop]) = .ok spot) : ∃ d, spot = .taken d ∧ top.look d = some .dir := by
  induction n generalizing place hops with
  | zero => exact walkWith_fixed hhop (fun _ _ h => by cases h) h
  | succ n ih => exact walkWith_fixed hhop (fun _ _ h => ih h) h

/-- The last step of a path that leads to no directory goes into an entry. -/
theorem place_of_locate (h : s.locate true path = .ok spot)
    (hspot : ∀ d, spot = .taken d → s.top.look d ≠ some .dir) :
    ∃ d name, s.place path = .ok ⟨d, .name name, false⟩ := by
  rw [locate] at h
  cases hread : Route.read path with
  | error fault =>
    rw [hread] at h
    cases h
  | ok r =>
    simp only [hread, follow] at h
    have hwalk : walk s.top true linkLimit (s.origin r) r.allHops = .ok spot := by
      cases hfollow : walk s.top true linkLimit (s.origin r) r.allHops with
      | error e => simp [hfollow] at h
      | ok other => simpa [hfollow] using h
    obtain ⟨front, hop, hhops, hlast⟩ := Route.allHops_eq_concat hread
    rw [hhops] at hwalk
    have hinto : ∃ name, hop = .into name := by
      refine Classical.byContradiction fun hnot => ?_
      obtain ⟨d, heq, hdir⟩ := walk_fixed (not_exists.1 hnot) _ hwalk
      exact hspot d heq hdir
    obtain ⟨name, rfl⟩ := hinto
    obtain ⟨hslash, hnamed⟩ := hlast name rfl
    obtain ⟨d, hinit, hdir⟩ := walk_init _ hwalk
    have hplace : s.placeOfRoute r = .ok ⟨d, .name name, false⟩ := by
      refine placeOfRoute_eq_ok.2 ⟨d, ⟨?_, hdir⟩, by rw [hnamed, List.getLast?_concat, hslash]⟩
      rw [hnamed, List.dropLast_concat]
      exact hinit
    exact ⟨d, name, place_eq_ok.2 ⟨r, hread, hplace⟩⟩

/-! ## Where a file is written -/

/-- Where a file is written by its path, links followed: at a file, or under a free name in a directory. -/
inductive WritesTo (s : Store) (path : Bytes) : List Name → Prop
  | free {dir : List Name} {name : Name} (spot : s.locate true path = .ok (.free dir name)) :
    WritesTo s path (dir ++ [name])
  | file {place : List Name} {content : Content} {executable : Bool} (spot : s.locate true path = .ok (.taken place))
    (file : s.top.look place = some (.file content executable)) : WritesTo s path place

/-- What stands where a file is written is no directory and no link. -/
theorem WritesTo.look (h : s.WritesTo path q) : s.top.look q = none ∨
    ∃ content executable, s.top.look q = some (.file content executable) := by
  cases h with
  | free spot => exact .inl (look_of_locate spot).2
  | @file _ content executable spot file => exact .inr ⟨content, executable, file⟩

end Store

/-- A file is opened for writing at the place its path leads to. -/
theorem Files.emptyFile_of_writesTo {s : Store} {path : Bytes} {q : List Name} (h : s.WritesTo path q) :
    ∃ dir name executable, q = dir ++ [name] ∧ s.top.look dir = some .dir ∧
      emptyFile path s = (.ok q, s.put dir name (.file (.plain []) executable)) := by
  have hopens {spot : Spot} (hspot : s.locate true path = .ok spot)
      (hnot : ∀ d, spot = .taken d → s.top.look d ≠ some .dir) : writeSpot path s = (.ok spot, s) := by
    obtain ⟨d, name, hplace⟩ := Store.place_of_locate hspot hnot
    rw [writeSpot, run_bind, ask_eq, hplace]
    simp only [run_bind, run_get, hspot]
    rfl
  cases h with
  | @free dir name spot =>
    refine ⟨dir, name, false, rfl, (Store.look_of_locate spot).1, ?_⟩
    rw [emptyFile, run_bind, hopens spot (by simp)]
    rfl
  | @file _ content executable spot file =>
    have hnot : ∀ d, Spot.taken q = .taken d → s.top.look d ≠ some .dir := by
      rintro d ⟨⟩
      simp [file]
    have hnode := look_eq_file.1 file
    cases hlast : q.getLast? with
    | none =>
      -- a path leads through directories, so the tree itself is none that is written
      obtain rfl := List.getLast?_eq_none_iff.1 hlast
      obtain ⟨d, name, hplace⟩ := Store.place_of_locate spot hnot
      have hdir := look_of_place hplace
      obtain rfl := eq_of_isPrefix_of_look (by simp [file]) hdir List.nil_prefix
      rw [file] at hdir
      cases hdir
    | some name =>
      obtain ⟨dir, rfl⟩ := List.getLast?_eq_some_iff.1 hlast
      refine ⟨dir, name, executable, rfl, look_eq_dir_of_below file, ?_⟩
      rw [emptyFile, run_bind, hopens spot hnot]
      simp only [run_bind, run_get, hnode, run_modify, Store.fill, Store.replace_concat]
      rfl

end StubRelease
