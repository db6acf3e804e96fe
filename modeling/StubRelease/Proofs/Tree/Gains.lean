/-
# StubRelease.Proofs.Tree.Gains -- making directories in a tree with links

Making directories takes nothing away, whether there are links in the tree or not: what was seen before is
seen afterwards, and what is new is a directory where nothing stood (`makeDirs_gains`). So every path that
led to something goes on leading there (`Gains.placeOf`). An entry that is no link is found whether links at
the end of a path are followed or not (`nodeAt_of_entry`), and where following links finds anything, an entry
stands (`entry_of_nodeAt`).
-/
import StubRelease.Proofs.Tree.Growth

namespace StubRelease

open Sequence

namespace Node

/-- Directories were made where nothing stood, and nothing else is seen to have happened. -/
def Gains (n m : Node) : Prop := ∀ p, m.look p = n.look p ∨ n.look p = none ∧ m.look p = some .dir

namespace Gains

variable {n m k : Node}

theorem refl (n : Node) : Gains n n := fun _ => .inl rfl

theorem trans (h : Gains n m) (h' : Gains m k) : Gains n k := by
  intro p
  rcases h p with hp | ⟨hp, hp'⟩
  · rcases h' p with hq | ⟨hq, hq'⟩
    · exact .inl (hq.trans hp)
    · exact .inr ⟨hp ▸ hq, hq'⟩
  · rcases h' p with hq | ⟨hq, -⟩
    · exact .inr ⟨hp, hq.trans hp'⟩
    · rw [hp'] at hq
      cases hq

/-- What is seen goes on being seen. -/
theorem look_eq (h : Gains n m) {p : List Name} {seen : Sight} (hp : n.look p = some seen) :
    m.look p = some seen := by
  rcases h p with heq | ⟨hnone, -⟩
  · rw [heq, hp]
  · rw [hp] at hnone
    cases hnone

/-- A tree gains an empty directory under a free name. -/
theorem put {place : List Name} {name : Name} (hdir : n.look place = some .dir)
    (hfree : n.look (place ++ [name]) = none) : Gains n (n.put place name .emptyDir) := by
  intro p
  by_cases hat : place ++ [name] <+: p
  · -- the new directory is empty, so only its own place is new
    obtain ⟨rest, rfl⟩ := hat
    cases rest with
    | nil =>
      rw [List.append_nil]
      exact .inr ⟨hfree, look_put hdir _ _ []⟩
    | cons first rest =>
      have hnone : n.look (place ++ [name] ++ first :: rest) = none :=
        look_below_of_not_dir (by simp [hfree]) first rest
      rw [hnone, List.append_assoc, List.singleton_append, look_put hdir]
      exact .inl rfl
  · exact .inl (look_put_elsewhere n _ hat)

end Gains

end Node

namespace Store

open Node

variable {top other : Node} {place goal : List Name} {jump jump' : List Name → List Hop → Except Errno Spot}
  {follow : Bool} {hops : List Hop} {s t u : Store} {path : Bytes}

/-! ## Walks -/

/-- A walk that has ended at a place ends there too when directories have been made. -/
theorem walkWith_gains (hgains : top.Gains other)
    (hjump : ∀ place hops, jump place hops = .ok (.taken goal) → jump' place hops = .ok (.taken goal))
    (h : walkWith jump top follow place hops = .ok (.taken goal)) :
    walkWith jump' other follow place hops = .ok (.taken goal) := by
  -- on the hops: a walk that ends at a place has met entries and links only, and both are there in the larger tree
  induction hops generalizing place with
  | nil =>
    cases h
    rfl
  | cons hop rest ih =>
    obtain ⟨hplace, hshort, ⟨hdirect, hnext⟩ | ⟨_, _, _, _, hspot⟩ | ⟨name, target, rfl, hlink⟩⟩ :=
      walkWith_cons h
    · have hdirect' : hop.Direct other place := by
        refine ⟨hshort, fun name hname => ?_⟩
        obtain ⟨hthere, hnolink⟩ := hdirect.2 name hname
        obtain ⟨seen, hseen⟩ := Option.ne_none_iff_exists'.1 hthere
        rw [hgains.look_eq hseen, ← hseen]
        exact ⟨hthere, hnolink⟩
      rw [walkWith_direct (hgains.look_eq hplace) hdirect']
      exact ih hnext
    · cases hspot
    · rw [walkWith_link hplace hshort hlink] at h
      rw [walkWith_link (hgains.look_eq hplace) hshort (hgains.look_eq hlink)]
      split at h
      · cases h
        rename_i hends
        rw [if_pos hends]
      · rename_i hgo
        rw [if_neg hgo]
        exact hjump _ _ h

theorem walk_gains (hgains : top.Gains other) (n : Nat)
    (h : walk top follow n place hops = .ok (.taken goal)) :
    walk other follow n place hops = .ok (.taken goal) := by
  -- on the links that may still be followed
  induction n generalizing place hops with
  | zero => exact walkWith_gains hgains (fun _ _ h => by cases h) h
  | succ n ih => exact walkWith_gains hgains (fun _ _ h => ih h) h

/-- A walk that stops at what is no link stops there also when it has to follow links. -/
theorem walkWith_to_target (hgoal : ∀ target, top.look goal ≠ some (.link target))
    (hjump : ∀ place hops, jump place hops = .ok (.taken goal) → jump' place hops = .ok (.taken goal))
    (h : walkWith jump top false place hops = .ok (.taken goal)) :
    walkWith jump' top true place hops = .ok (.taken goal) := by
  -- on the hops; only a link at the very end is treated differently, and the goal is none
  induction hops generalizing place with
  | nil =>
    cases h
    rfl
  | cons hop rest ih =>
    obtain ⟨hplace, hshort, ⟨hdirect, hnext⟩ | ⟨_, _, _, _, hspot⟩ | ⟨name, target, rfl, hlink⟩⟩ :=
      walkWith_cons h
    · rw [walkWith_direct hplace hdirect]
      exact ih hnext
    · cases hspot
    · rw [walkWith_link hplace hshort hlink] at h
      rw [walkWith_link hplace hshort hlink, Bool.not_true, Bool.and_false]
      split at h
      · cases h
        exact absurd hlink (hgoal target)
      · exact hjump _ _ h

theorem walk_to_target (hgoal : ∀ target, top.look goal ≠ some (.link target)) (n : Nat)
    (h : walk top false n place hops = .ok (.taken goal)) :
    walk top true n place hops = .ok (.taken goal) := by
  induction n generalizing place hops with
  | zero => exact walkWith_to_target hgoal (fun _ _ h => by cases h) h
  | succ n ih => exact walkWith_to_target hgoal (fun _ _ h => ih h) h

/-- A walk that follows links goes where the one that does not goes, unless that one has stopped at a link. -/
theorem walkWith_from_target
    (hjump : ∀ place hops, jump' place hops = .ok (.taken goal) →
      ∃ found, jump place hops = .ok (.taken found) ∧ (found = goal ∨ ∃ target, top.look found = some (.link target)))
    (h : walkWith jump' top true place hops = .ok (.taken goal)) :
    ∃ found, walkWith jump top false place hops = .ok (.taken found) ∧
      (found = goal ∨ ∃ target, top.look found = some (.link target)) := by
  induction hops generalizing place with
  | nil =>
    cases h
    exact ⟨_, rfl, .inl rfl⟩
  | cons hop rest ih =>
    obtain ⟨hplace, hshort, ⟨hdirect, hnext⟩ | ⟨_, _, _, _, hspot⟩ | ⟨name, target, rfl, hlink⟩⟩ :=
      walkWith_cons h
    · rw [walkWith_direct hplace hdirect]
      exact ih hnext
    · cases hspot
    · rw [walkWith_link hplace hshort hlink, Bool.not_true, Bool.and_false] at h
      rw [walkWith_link hplace hshort hlink]
      split
      · exact ⟨place ++ [name], rfl, .inr ⟨target, hlink⟩⟩
      · exact hjump _ _ h

theorem walk_from_target (n : Nat) (h : walk top true n place hops = .ok (.taken goal)) :
    ∃ found, walk top false n place hops = .ok (.taken found) ∧
      (found = goal ∨ ∃ target, top.look found = some (.link target)) := by
  induction n generalizing place hops with
  | zero => exact walkWith_from_target (fun _ _ h => by cases h) h
  | succ n ih => exact walkWith_from_target (fun _ _ h => ih h) h

/-! ## Paths -/

/-- What a path leads to, by the walk along it. -/
theorem placeOf_eq_ok {toTarget : Bool} {found : List Name} : s.placeOf toTarget path = .ok found ↔
    ∃ r, Route.read path = .ok r ∧ walk s.top toTarget linkLimit (s.origin r) r.allHops = .ok (.taken found) := by
  rw [placeOf, locate]
  cases hread : Route.read path with
  | error fault => simp
  | ok r =>
    simp only [Except.ok.injEq, exists_eq_left', follow]
    cases hwalk : walk s.top toTarget linkLimit (s.origin r) r.allHops with
    | error e => simp
    | ok spot => cases spot <;> simp

/-- What stands at a path, by the place the path leads to. -/
theorem nodeAt_eq_ok {toTarget : Bool} {node : Node} : s.nodeAt toTarget path = .ok node ↔
    ∃ found, s.placeOf toTarget path = .ok found ∧ s.top.get? found = some node := by
  rw [nodeAt]
  cases s.placeOf toTarget path with
  | error fault => simp
  | ok found => cases hnode : s.top.get? found <;> simp [hnode]

theorem hasEntry_iff : s.hasEntry path = true ↔
    ∃ found, s.placeOf false path = .ok found ∧ s.top.look found ≠ none := by
  rw [hasEntry]
  constructor
  · intro h
    cases hnode : s.nodeAt false path with
    | error fault =>
      rw [hnode] at h
      cases h
    | ok node =>
      obtain ⟨found, hplace, hget⟩ := nodeAt_eq_ok.1 hnode
      exact ⟨found, hplace, by simp [look_of_get? hget]⟩
  · rintro ⟨found, hplace, hstands⟩
    obtain ⟨node, hget⟩ := Option.ne_none_iff_exists'.1 (mt look_eq_none.2 hstands)
    rw [nodeAt_eq_ok.2 ⟨found, hplace, hget⟩]
    rfl

/-- The same tree of directories with more directories in it, seen from the same place. -/
structure Gains (s t : Store) : Prop where
  cwd : t.cwd = s.cwd
  top : s.top.Gains t.top

namespace Gains

theorem refl (s : Store) : Gains s s := ⟨rfl, .refl _⟩

theorem trans (h : Gains s t) (h' : Gains t u) : Gains s u := ⟨h'.cwd.trans h.cwd, h.top.trans h'.top⟩

theorem put {dir : List Name} {name : Name} (hdir : s.top.look dir = some .dir)
    (hfree : s.top.look (dir ++ [name]) = none) : Gains s (s.put dir name .emptyDir) :=
  ⟨rfl, .put hdir hfree⟩

/-- A path goes on leading where it leads when directories have been made. -/
theorem placeOf (h : Gains s t) {toTarget : Bool} {found : List Name}
    (hplace : s.placeOf toTarget path = .ok found) : t.placeOf toTarget path = .ok found := by
  obtain ⟨r, hread, hwalk⟩ := placeOf_eq_ok.1 hplace
  refine placeOf_eq_ok.2 ⟨r, hread, ?_⟩
  rw [origin, h.cwd]
  exact walk_gains h.top _ hwalk

/-- An entry goes on standing at a path when directories have been made. -/
theorem hasEntry (h : Gains s t) (hentry : s.hasEntry path = true) : t.hasEntry path = true := by
  obtain ⟨found, hplace, hstands⟩ := hasEntry_iff.1 hentry
  obtain ⟨seen, hseen⟩ := Option.ne_none_iff_exists'.1 hstands
  refine hasEntry_iff.2 ⟨found, h.placeOf hplace, ?_⟩
  simp [h.top.look_eq hseen]

end Gains

/-- An entry that is no link is found when links are followed, too. -/
theorem nodeAt_of_entry {node : Node} (h : s.nodeAt false path = .ok node) (hlink : node.isLink = false) :
    s.nodeAt true path = .ok node := by
  obtain ⟨found, hplace, hget⟩ := nodeAt_eq_ok.1 h
  obtain ⟨r, hread, hwalk⟩ := placeOf_eq_ok.1 hplace
  have hgoal (target : Bytes) : s.top.look found ≠ some (.link target) := by
    intro hseen
    rw [look_eq_link.1 hseen] at hget
    obtain rfl := Option.some.inj hget
    cases hlink
  exact nodeAt_eq_ok.2 ⟨found, placeOf_eq_ok.2 ⟨r, hread, walk_to_target hgoal _ hwalk⟩, hget⟩

/-- What is found when links are followed stands there itself, or a link does. -/
theorem entry_of_nodeAt {node : Node} (h : s.nodeAt true path = .ok node) :
    s.nodeAt false path = .ok node ∨ ∃ target, s.nodeAt false path = .ok (.link target) := by
  obtain ⟨goal, hplace, hget⟩ := nodeAt_eq_ok.1 h
  obtain ⟨r, hread, hwalk⟩ := placeOf_eq_ok.1 hplace
  obtain ⟨found, hfound, hat⟩ := walk_from_target _ hwalk
  have hfirst : s.placeOf false path = .ok found := placeOf_eq_ok.2 ⟨r, hread, hfound⟩
  rcases hat with rfl | ⟨target, hlink⟩
  · exact .inl (nodeAt_eq_ok.2 ⟨found, hfirst, hget⟩)
  · exact .inr ⟨target, nodeAt_eq_ok.2 ⟨found, hfirst, look_eq_link.1 hlink⟩⟩

end Store

/-! ## Making directories -/

namespace Files

variable {s : Store} {r : Route}

theorem makeDirAlong_gains : s.Gains (makeDirAlong r s).2 := by
  obtain ⟨fault, hfault⟩ | ⟨dir, name, hleads, -, -, hnone, hmade⟩ := makeDirAlong_cases s r
  · rw [hfault]
    exact .refl s
  · rw [hmade]
    exact .put hleads.dir hnone

theorem ensureDirAlong_gains : s.Gains (ensureDirAlong r s).2 := by
  have hgains := makeDirAlong_gains (s := s) (r := r)
  rw [ensureDirAlong, run_tryCatch]
  cases hmade : makeDirAlong r s with
  | mk result u =>
    rw [hmade] at hgains
    cases result with
    | ok _ => exact hgains
    | error fault =>
      simp only [run_bind, run_get]
      split <;> exact hgains

theorem makeDirsAlong_gains (n : Nat) : s.Gains (makeDirsAlong n r s).2 := by
  -- on the directories above that may still be made: each attempt is one more step of the same kind
  induction n generalizing s r with
  | zero => exact ensureDirAlong_gains
  | succ n ih =>
    have hgains := makeDirAlong_gains (s := s) (r := r)
    rw [makeDirsAlong, run_tryCatch]
    cases hmade : makeDirAlong r s with
    | mk result u =>
      rw [hmade] at hgains
      cases result with
      | ok _ => exact hgains
      | error fault =>
        dsimp only
        split
        · cases r.parent? with
          | none => exact hgains
          | some above =>
            dsimp only
            split
            · refine hgains.trans (relates_bind (R := Store.Gains) .trans ih fun _ _ _ _ => ?_)
              exact ensureDirAlong_gains
            · exact hgains.trans ensureDirAlong_gains
        · simp only [run_bind, run_get]
          split <;> exact hgains

/-- Making directories takes nothing away, whatever comes of it. -/
theorem makeDirs_gains (path : Bytes) : s.Gains (makeDirs path s).2 := by
  rw [makeDirs]
  split
  · exact .refl s
  · rw [run_bind, ask_eq]
    cases Route.read path with
    | error fault => exact .refl s
    | ok r => exact makeDirsAlong_gains _

/-- No directory is made at the path of an entry that stands. -/
theorem makeDir_of_hasEntry {p : Path} {text : String} (hname : IsName (Bytes.ofString text))
    (h : s.hasEntry (p / text).bytes = true) : ∃ fault, makeDir (p / text).bytes s = (.error fault, s) := by
  obtain hrefused | ⟨d, hfinds, hshort, hnone, -⟩ := makeDir_finds (s := s) (p := p) hname
  · exact hrefused
  · rw [Store.hasEntry, Store.nodeAt_div hname hfinds hshort (by simp), hnone] at h
    cases h

end Files

end StubRelease
