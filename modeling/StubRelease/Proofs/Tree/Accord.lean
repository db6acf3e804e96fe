/-
# StubRelease.Proofs.Tree.Accord -- one path, two trees

Two trees accord when no place is a directory in one and a link in the other, and no place a link to two
targets. A path that leads to a directory in both then leads to the same one, however much is missing in
either (`Reaches.accords`). So a path that is looked up again and again while entries come and go can fail,
but it cannot lead elsewhere. Entries may be taken away and files written without accord being lost.
-/
import StubRelease.Proofs.Tree.Opening

namespace StubRelease

namespace Node

/-- Nothing, or a file: no path leads on from there. -/
def LeadsNowhere (seen : Option Sight) : Prop := seen = none ∨ ∃ content executable, seen = some (.file content executable)

theorem leadsNowhere_of_not {n : Node} {p : List Name} (hdir : n.look p ≠ some .dir)
    (hlink : ∀ target, n.look p ≠ some (.link target)) : LeadsNowhere (n.look p) := by
  cases hseen : n.look p with
  | none => exact .inl rfl
  | some seen =>
    cases seen with
    | dir => exact absurd hseen hdir
    | link target => exact absurd hseen (hlink target)
    | file content executable => exact .inr ⟨content, executable, rfl⟩

/-- Where something other than a file is seen in both trees, the same is seen. -/
structure Accords (n m : Node) : Prop where
  dir : ∀ p target, n.look p = some .dir → m.look p ≠ some (.link target)
  link : ∀ p target, n.look p = some (.link target) → m.look p ≠ some .dir
  target : ∀ p a b, n.look p = some (.link a) → m.look p = some (.link b) → a = b

namespace Accords

variable {n m k : Node}

theorem refl (n : Node) : n.Accords n where
  dir p target hdir := by simp [hdir]
  link p target hlink := by simp [hlink]
  target p a b ha hb := by simpa [ha] using hb

theorem symm (h : n.Accords m) : m.Accords n where
  dir p target hdir hlink := h.link p target hlink hdir
  link p target hlink hdir := h.dir p target hdir hlink
  target p a b ha hb := (h.target p b a hb ha).symm

/-- Accord is not lost at a place where no path leads on, in one tree or the other. -/
theorem of_look (h : m.Accords k)
    (hn : ∀ p, n.look p = m.look p ∨ LeadsNowhere (n.look p) ∨ LeadsNowhere (k.look p)) : n.Accords k where
  dir p target hdir hlink := by
    obtain heq | (hnone | ⟨_, _, hfile⟩) | hnone | ⟨_, _, hfile⟩ := hn p
    · exact h.dir p target (heq ▸ hdir) hlink
    all_goals simp_all
  link p target hlink hdir := by
    obtain heq | (hnone | ⟨_, _, hfile⟩) | hnone | ⟨_, _, hfile⟩ := hn p
    · exact h.link p target (heq ▸ hlink) hdir
    all_goals simp_all
  target p a b ha hb := by
    obtain heq | (hnone | ⟨_, _, hfile⟩) | hnone | ⟨_, _, hfile⟩ := hn p
    · exact h.target p a b (heq ▸ ha) hb
    all_goals simp_all

/-- Nothing that is taken away and no file that is written makes a path lead elsewhere. -/
theorem edit (h : n.Accords m) (hk : ∀ p, k.look p = m.look p ∨ LeadsNowhere (k.look p)) : n.Accords k :=
  (h.symm.of_look fun p => (hk p).imp_right .inl).symm

end Accords

/-! ## A file, put and dropped -/

/-- A file that is put where no directory stands is seen at its place only. -/
theorem look_put_file {n : Node} {place : List Name} {name : Name} (hplace : n.look place = some .dir)
    (hold : n.look (place ++ [name]) ≠ some .dir) (content : Content) (executable : Bool) {p : List Name}
    (hp : p ≠ place ++ [name]) : (n.put place name (.file content executable)).look p = n.look p := by
  by_cases hat : place ++ [name] <+: p
  · obtain ⟨rest, rfl⟩ := hat
    cases rest with
    | nil => exact absurd (List.append_nil _) hp
    | cons first rest =>
      rw [look_below_of_not_dir hold, List.append_assoc, List.singleton_append, look_put hplace]
      rfl
  · exact look_put_elsewhere n _ hat

/-- What is no directory goes from its place only. -/
theorem look_drop_of_not_dir {n : Node} {place : List Name} {name : Name}
    (hold : n.look (place ++ [name]) ≠ some .dir) {p : List Name} (hp : p ≠ place ++ [name]) :
    (n.drop place name).look p = n.look p := by
  by_cases hat : place ++ [name] <+: p
  · obtain ⟨rest, rfl⟩ := hat
    cases rest with
    | nil => exact absurd (List.append_nil _) hp
    | cons first rest =>
      rw [look_below_of_not_dir hold, List.append_assoc, List.singleton_append, look_drop]
  · exact look_drop_elsewhere n hat

end Node

/-! ## Walks -/

namespace Store

open Node

variable {top other : Node} {place goal goal' : List Name}
  {jump jump' : List Name → List Hop → Except Errno Spot} {hops : List Hop}

/-- Two walks to directories of trees that accord end at the same place: where one is led on by a link, the
other is led on by it, too. -/
theorem walkWith_accords (h : top.Accords other) (hgoal : top.look goal = some .dir)
    (hgoal' : other.look goal' = some .dir)
    (hjump : ∀ place hops, jump place hops = .ok (.taken goal) → jump' place hops = .ok (.taken goal') →
      goal = goal')
    (hwalk : walkWith jump top true place hops = .ok (.taken goal))
    (hwalk' : walkWith jump' other true place hops = .ok (.taken goal')) : goal = goal' := by
  induction hops generalizing place with
  | nil =>
    cases hwalk
    cases hwalk'
    rfl
  | cons hop rest ih =>
    obtain ⟨hplace, hshort, ⟨-, hnext⟩ | ⟨_, _, _, _, hspot⟩ | ⟨name, target, rfl, hlink⟩⟩ :=
      walkWith_cons hwalk
    · obtain ⟨-, -, ⟨-, hnext'⟩ | ⟨_, _, _, _, hspot⟩ | ⟨name, target, rfl, hlink⟩⟩ := walkWith_cons hwalk'
      · exact ih hnext hnext'
      · cases hspot
      · exact absurd hlink (h.dir _ target (look_of_walkWith hgoal hnext))
    · cases hspot
    · obtain ⟨hplace', -, ⟨-, hnext'⟩ | ⟨_, _, _, _, hspot⟩ | ⟨_, target', heq, hlink'⟩⟩ :=
        walkWith_cons hwalk'
      · exact absurd (look_of_walkWith hgoal' hnext') (h.link _ target hlink)
      · cases hspot
      · cases heq
        obtain rfl := h.target _ _ _ hlink hlink'
        rw [walkWith_link hplace hshort hlink, Bool.not_true, Bool.and_false] at hwalk
        rw [walkWith_link hplace' hshort hlink', Bool.not_true, Bool.and_false] at hwalk'
        exact hjump _ _ hwalk hwalk'

theorem walk_accords (h : top.Accords other) (hgoal : top.look goal = some .dir)
    (hgoal' : other.look goal' = some .dir) (n : Nat)
    (hwalk : walk top true n place hops = .ok (.taken goal))
    (hwalk' : walk other true n place hops = .ok (.taken goal')) : goal = goal' := by
  induction n generalizing place hops with
  | zero => exact walkWith_accords h hgoal hgoal' (fun _ _ h => by cases h) hwalk hwalk'
  | succ n ih => exact walkWith_accords h hgoal hgoal' (fun _ _ h h' => ih h h') hwalk hwalk'

variable {s t : Store} {p : Path} {d d' : List Name}

/-- A path that leads to a directory of two stores that accord leads to the same one. -/
theorem Reaches.accords (h : s.Reaches p d) (h' : t.Reaches p d') (haccords : s.top.Accords t.top)
    (hcwd : t.cwd = s.cwd) : d' = d := by
  have hwalk' := h'.walk
  rw [origin, hcwd] at hwalk'
  exact (walk_accords haccords h.dir h'.dir _ h.walk hwalk').symm

end Store

end StubRelease
