/-
# StubRelease.Proofs.Moving -- what a move does in any tree

In a tree with links the destination of a move is probed through links, and the move itself acts on the entry. So
every entry at the destination stops a move except a link that leads nowhere, which is replaced
(`dangling_link_is_replaced`). Main statement: a move stops at any other entry and changes nothing, goes through where
nothing stands, and then the destination holds what the source held and nothing else has changed
(`movePath_never_replaces`).
-/
import StubRelease.Proofs.Staging
import StubRelease.Proofs.Tree.Writing

namespace StubRelease

open Sequence Node

/-! ## One entry in another place -/

namespace Store

variable {s t : Store} {path : Bytes} {d e : List Name} {a b : Name} {slash : Bool}

/-- Between `s` and `t` the entry `a` of the directory at `e` has become the entry `b` of the directory at `d`. -/
structure Moved (s : Store) (e : List Name) (a : Name) (d : List Name) (b : Name) (t : Store) : Prop where
  cwd : t.cwd = s.cwd
  there : t.top.get? (d ++ [b]) = s.top.get? (e ++ [a])
  gone : ∀ rest, t.top.look (e ++ a :: rest) = none
  elsewhere : ∀ p, ¬ e ++ [a] <+: p → ¬ d ++ [b] <+: p → t.top.look p = s.top.look p

theorem moved_of_rename {node : Node} (hd : s.top.look d = some .dir) (hfound : s.top.get? (e ++ [a]) = some node)
    (hdown : ¬ e ++ [a] <+: d) (hup : ¬ d ++ [b] <+: e) (hne : e ++ [a] ≠ d ++ [b]) :
    s.Moved e a d b ((s.drop e a).put d b node) := by
  obtain ⟨hthere, hgone, helsewhere⟩ := look_move node hd hdown hup hne
  exact ⟨rfl, hthere.trans hfound.symm, hgone, helsewhere⟩

theorem entry_eq_ok {found : Option Node} :
    s.entry d b = .ok found ↔ b.length ≤ Route.nameLimit ∧ s.top.get? (d ++ [b]) = found := by
  rw [entry]
  split
  · rename_i hlong
    simp [Nat.not_le.2 hlong]
  · rename_i hshort
    simp [Nat.le_of_not_lt hshort]

/-- A path that names an entry is the way to the entry's directory and one name more. -/
theorem way_of_place (h : s.place path = .ok ⟨d, .name b, slash⟩) :
    ∃ r front, Route.read path = .ok r ∧ r.hops = front ++ [.into b] ∧ s.Leads ⟨r.absolute, front, false⟩ d := by
  obtain ⟨r, hread, hplace⟩ := place_eq_ok.1 h
  obtain ⟨_, hleads, heq⟩ := placeOfRoute_eq_ok.1 hplace
  obtain ⟨rfl, hlast, -⟩ := Place.mk.inj heq
  have hinto : r.hops.getLast? = some (.into b) := by
    cases hhop : r.hops.getLast? with
    | none => simp [hhop] at hlast
    | some hop => cases hop <;> simp_all
  obtain ⟨front, hfront⟩ := List.getLast?_eq_some_iff.1 hinto
  rw [hfront, List.dropLast_concat] at hleads
  exact ⟨r, front, hread, hfront, hleads⟩

/-- Where a path names an entry that does not stand, nothing is found by the path. -/
theorem not_present_of_place (hplace : s.place path = .ok ⟨d, .name b, slash⟩) (hentry : s.entry d b = .ok none) :
    s.present path = false := by
  obtain ⟨hshort, hnone⟩ := entry_eq_ok.1 hentry
  rw [← look_eq_none] at hnone
  obtain ⟨r, front, hread, hhops, hleads⟩ := way_of_place hplace
  have hwalk : walk s.top true linkLimit (s.origin r) r.hops = .ok (.free d b) := by
    have hend (jump : List Name → List Hop → Except Errno Spot) :
        walkWith jump s.top true d [.into b] = .ok (.free d b) := by
      rw [walkWith_name jump hleads.dir hshort (by simp [hnone]), hnone]
      rfl
    rw [hhops]
    exact walk_concat hend linkLimit hleads.walk
  cases hnode : s.nodeAt true path with
  | error fault =>
    rw [present, hnode]
    rfl
  | ok node =>
    obtain ⟨found, hfound, -⟩ := nodeAt_eq_ok.1 hnode
    obtain ⟨r', hread', hgoal⟩ := placeOf_eq_ok.1 hfound
    obtain rfl := Except.ok.inj (hread.symm.trans hread')
    rw [Route.allHops] at hgoal
    split at hgoal
    · -- a slash at the end asks for a directory where the walk ends
      obtain ⟨_, hinit, -⟩ := walk_init _ hgoal
      rw [hwalk] at hinit
      cases hinit
    · rw [hwalk] at hgoal
      cases hgoal

end Store

/-! ## Moves -/

namespace Staging

variable {s t : Store} {source dest : Path} {e d : List Name} {a b : Name} {slash slash' : Bool} {node : Node}

/-- An entry is moved to where nothing stands, outside the entry. What is no directory is not moved by a path that
ends in a slash. -/
theorem movePath_of_place (hsource : s.place source.bytes = .ok ⟨e, .name a, slash⟩)
    (hfound : s.entry e a = .ok (some node)) (hdest : s.place dest.bytes = .ok ⟨d, .name b, slash'⟩)
    (hfree : s.entry d b = .ok none) (hslash : slash = true ∨ slash' = true → node.isDir = true)
    (hdown : ¬ e ++ [a] <+: d) : ∃ t, movePath source dest s = (.ok (), t) ∧ s.Moved e a d b t := by
  obtain ⟨hshort, hnode⟩ := Store.entry_eq_ok.1 hfound
  obtain ⟨hshort', hnone⟩ := Store.entry_eq_ok.1 hfree
  have hd : s.top.look d = some .dir := Files.look_of_place hdest
  have hup : ¬ d ++ [b] <+: e := not_isPrefix_of_free (look_eq_none.2 hnone) (Files.look_of_place hsource)
  have hne : e ++ [a] ≠ d ++ [b] := by
    intro heq
    rw [heq, hnone] at hnode
    cases hnode
  have hends : (!node.isDir && (slash || slash')) = false := by
    cases hdir : node.isDir with
    | true => rfl
    | false =>
      have := mt hslash (by simp [hdir])
      simpa using this
  have hrename := Files.rename_of_places hsource hdest hshort hshort' hnode
  rw [← List.isPrefixOf_iff_prefix, Bool.not_eq_true] at hdown hup
  rw [hends, hdown, hup, hnone, if_neg hne] at hrename
  rw [← Bool.not_eq_true, List.isPrefixOf_iff_prefix] at hdown hup
  refine ⟨(s.drop e a).put d b node, ?_, Store.moved_of_rename hd hnode hdown hup hne⟩
  rw [movePath_of_absent (Store.not_present_of_place hdest hfree), ofFiles_eq_ok]
  exact hrename

/-- A move that is refused changes nothing. -/
theorem movePath_of_error {failure : Failure} (h : movePath source dest s = (.error failure, t)) : t = s := by
  cases hpresent : s.present dest.bytes with
  | true =>
    rw [movePath_of_present hpresent] at h
    exact (outcome_inj.1 h).2.symm
  | false =>
    rw [movePath_of_absent hpresent, ofFiles_eq] at h
    obtain ⟨fault, hfault⟩ | ⟨e, a, _, d, b, _, node, -, -, -, -, -, ⟨-, hsame⟩ | ⟨-, -, -, -, hmoved⟩⟩ :=
      Files.rename_cases source.bytes dest.bytes s
    · rw [hfault] at h
      exact (outcome_inj.1 h).2.symm
    · rw [hsame] at h
      cases (outcome_inj.1 h).1
    · rw [hmoved] at h
      cases (outcome_inj.1 h).1

/-- A move that goes through has found nothing at the destination, or a link that leads nowhere, and has moved the
entry there unless it was there. -/
theorem movePath_of_ok (h : movePath source dest s = (.ok (), t)) :
    (∀ old, s.nodeAt false dest.bytes = .ok old → old.isLink = true ∧ s.present dest.bytes = false) ∧
      ∃ e a slash d b slash', s.place source.bytes = .ok ⟨e, .name a, slash⟩ ∧
        s.place dest.bytes = .ok ⟨d, .name b, slash'⟩ ∧ (s.Moved e a d b t ∨ e ++ [a] = d ++ [b] ∧ t = s) := by
  cases hpresent : s.present dest.bytes with
  | true =>
    rw [movePath_of_present hpresent] at h
    cases (outcome_inj.1 h).1
  | false =>
    refine ⟨fun old hold => ⟨?_, rfl⟩, ?_⟩
    · -- an entry that is no link would have been seen through the probe
      cases hlink : old.isLink with
      | true => rfl
      | false =>
        rw [Store.present, Store.nodeAt_of_entry hold hlink] at hpresent
        cases hpresent
    · rw [movePath_of_absent hpresent, ofFiles_eq_ok] at h
      obtain ⟨fault, hfault⟩ | ⟨e, a, slash, d, b, slash', node, hsource, hdest, -, -, hfound, hmoved⟩ :=
        Files.rename_cases source.bytes dest.bytes s
      · rw [hfault] at h
        cases (outcome_inj.1 h).1
      · refine ⟨e, a, slash, d, b, slash', hsource, hdest, ?_⟩
        obtain ⟨heq, hsame⟩ | ⟨hdown, hup, hne, -, hrename⟩ := hmoved
        · rw [hsame] at h
          exact .inr ⟨heq, (outcome_inj.1 h).2.symm⟩
        · rw [hrename] at h
          obtain ⟨-, rfl⟩ := outcome_inj.1 h
          exact .inl (Store.moved_of_rename (Files.look_of_place hdest) hfound hdown hup hne)

/-- An entry at the destination that is no link to nowhere stops a move. Where nothing stands, what stands at the
source is moved, if the destination is an entry of an existing directory outside the source. A move that stops has
changed nothing, and one that goes through has moved one entry, replacing nothing but a link to nowhere. -/
theorem movePath_never_replaces (source dest : Path) (s : Store) :
    (∀ old, s.nodeAt false dest.bytes = .ok old → (old.isLink = true → s.present dest.bytes = true) →
        movePath source dest s = (.error (.destinationExists dest), s)) ∧
      (∀ e a slash node d b slash', s.place source.bytes = .ok ⟨e, .name a, slash⟩ → s.entry e a = .ok (some node) →
        s.place dest.bytes = .ok ⟨d, .name b, slash'⟩ → s.entry d b = .ok none →
        (slash = true ∨ slash' = true → node.isDir = true) → ¬ e ++ [a] <+: d →
        ∃ t, movePath source dest s = (.ok (), t) ∧ s.Moved e a d b t) ∧
      (∀ failure t, movePath source dest s = (.error failure, t) → t = s) ∧
      ∀ t, movePath source dest s = (.ok (), t) →
        (∀ old, s.nodeAt false dest.bytes = .ok old → old.isLink = true ∧ s.present dest.bytes = false) ∧
          ∃ e a slash d b slash', s.place source.bytes = .ok ⟨e, .name a, slash⟩ ∧
            s.place dest.bytes = .ok ⟨d, .name b, slash'⟩ ∧ (s.Moved e a d b t ∨ e ++ [a] = d ++ [b] ∧ t = s) := by
  refine ⟨fun old hold hlink => movePath_of_present ?_, fun e a slash node d b slash' => movePath_of_place,
    fun failure t => movePath_of_error, fun t => movePath_of_ok⟩
  cases hkind : old.isLink with
  | true => exact hlink hkind
  | false =>
    rw [Store.present, Store.nodeAt_of_entry hold hkind]
    rfl

/-- A file `a`, a link `b` to nowhere, an empty directory `d`, and a link `k` to the file. -/
def fourEntries : Store :=
  ⟨.dir [(Bytes.ofString "a", .ofBytes (Bytes.ofString "A")), (Bytes.ofString "b", .link (Bytes.ofString "nowhere")),
    (Bytes.ofString "d", .emptyDir), (Bytes.ofString "k", .link (Bytes.ofString "a"))], []⟩

/-- The file is not moved over the directory or the link that leads to it, and it is moved into the directory. -/
theorem moves_among_fourEntries :
    movePath ⟨"/a"⟩ ⟨"/d"⟩ fourEntries = (.error (.destinationExists ⟨"/d"⟩), fourEntries) ∧
      movePath ⟨"/a"⟩ ⟨"/k"⟩ fourEntries = (.error (.destinationExists ⟨"/k"⟩), fourEntries) ∧
      ∃ t, movePath ⟨"/a"⟩ ⟨"/d/x"⟩ fourEntries = (.ok (), t) ∧
        fourEntries.Moved [] (Bytes.ofString "a") [Bytes.ofString "d"] (Bytes.ofString "x") t := by
  refine ⟨(movePath_never_replaces ⟨"/a"⟩ ⟨"/d"⟩ fourEntries).1 .emptyDir rfl (by simp [emptyDir, isLink]),
    (movePath_never_replaces ⟨"/a"⟩ ⟨"/k"⟩ fourEntries).1 (.link (Bytes.ofString "a")) rfl fun _ => by decide +kernel,
    (movePath_never_replaces ⟨"/a"⟩ ⟨"/d/x"⟩ fourEntries).2.1 [] (Bytes.ofString "a") false
      (.ofBytes (Bytes.ofString "A")) [Bytes.ofString "d"] (Bytes.ofString "x") false rfl rfl rfl rfl (by simp)
      (by decide)⟩

/-- The file is moved over the link that leads nowhere. -/
theorem dangling_link_is_replaced :
    fourEntries.nodeAt false (Path.bytes ⟨"/b"⟩) = .ok (.link (Bytes.ofString "nowhere")) ∧
      (movePath ⟨"/a"⟩ ⟨"/b"⟩ fourEntries).1.toBool = true ∧
      (movePath ⟨"/a"⟩ ⟨"/b"⟩ fourEntries).2.top.get? [Bytes.ofString "b"] = fourEntries.top.get? [Bytes.ofString "a"] :=
  ⟨rfl, by decide +kernel, rfl⟩

end Staging

end StubRelease
