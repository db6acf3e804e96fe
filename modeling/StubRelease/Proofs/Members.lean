/-
# StubRelease.Proofs.Members -- the files an archive holds

An archive of a tree holds a file for every file and every link of the tree and for nothing else, each
under the name that its place in the tree spells (`file_mem_zipNode`). A link is packed as the file it
leads to.
-/
import StubRelease.Proofs.Unpacking

namespace StubRelease.Archive

open Route (slashByte)

/-- What a file of an archive holds, by what is seen in the tree where it comes from: a file goes in as it
is, a link as what is opened by its path. -/
def Packs (s : Store) (path : Bytes) : Sight → Content → Prop
  | .file content _, packed => packed = content
  | .link _, packed => contentAt s path = .ok packed
  | .dir, _ => False

/-- The file `m` holds `content` in an archive of what is seen below a node. -/
def Holds (s : Store) (name path : Bytes) (n : Node) (m : Bytes) (content : Content) : Prop :=
  ∃ (rest : List Name) (seen : Sight), m = rest.foldl memberName name ∧ n.look rest = some seen ∧
    Packs s (rest.foldl entryPath path) seen content

namespace Holds

variable {s : Store} {name path m : Bytes} {content : Content}

theorem file_iff {old : Content} {executable : Bool} :
    Holds s name path (.file old executable) m content ↔ m = name ∧ content = old := by
  constructor
  · rintro ⟨rest, seen, rfl, hlook, hpacks⟩
    cases rest with
    | nil =>
      obtain rfl := Option.some.inj hlook
      exact ⟨rfl, hpacks⟩
    | cons _ _ => cases hlook
  · rintro ⟨rfl, rfl⟩
    exact ⟨[], _, rfl, rfl, rfl⟩

theorem link_iff {target : Bytes} :
    Holds s name path (.link target) m content ↔ m = name ∧ contentAt s path = .ok content := by
  constructor
  · rintro ⟨rest, seen, rfl, hlook, hpacks⟩
    cases rest with
    | nil =>
      obtain rfl := Option.some.inj hlook
      exact ⟨rfl, hpacks⟩
    | cons _ _ => cases hlook
  · rintro ⟨rfl, hcontent⟩
    exact ⟨[], _, rfl, rfl, hcontent⟩

/-- What a directory holds is in one of its entries. -/
theorem dir_iff {entries : List (Name × Node)} (hsorted : Listing.Sorted entries) :
    Holds s name path (.dir entries) m content ↔
      ∃ entry ∈ entries, Holds s (memberName name entry.1) (entryPath path entry.1) entry.2 m content := by
  constructor
  · rintro ⟨rest, seen, rfl, hlook, hpacks⟩
    cases rest with
    | nil =>
      obtain rfl := Option.some.inj hlook
      exact hpacks.elim
    | cons first rest =>
      rw [Node.look_dir_cons] at hlook
      obtain ⟨child, hchild, hrest⟩ := Option.bind_eq_some_iff.1 hlook
      exact ⟨(first, child), Listing.mem_of_find? hchild, rest, seen, rfl, hrest, hpacks⟩
  · rintro ⟨⟨first, child⟩, hmem, rest, seen, rfl, hlook, hpacks⟩
    refine ⟨first :: rest, seen, rfl, ?_, hpacks⟩
    rw [Node.look_dir_cons, Listing.find?_of_mem hsorted hmem]
    exact hlook

end Holds

/-- The files in an archive of a node. -/
theorem file_mem_zipNode {s : Store} {name path m : Bytes} {content : Content} {n : Node} (hn : n.WellFormed)
    (hok : (zipNode s name path n).failure = none) :
    Member.file m content ∈ (zipNode s name path n).members ↔ Holds s name path n m content := by
  induction hn generalizing name path with
  | file old executable =>
    rw [zipNode] at hok ⊢
    split
    · rename_i hlong
      simp [hlong] at hok
    · rw [Holds.file_iff, Packed.one, List.mem_singleton, Member.file.injEq]
  | link target =>
    rw [zipNode] at hok ⊢
    rw [Holds.link_iff]
    cases hcontent : contentAt s path with
    | error fault => simp [hcontent] at hok
    | ok found =>
      simp only [Packed.one, List.mem_singleton, Member.file.injEq, Except.ok.injEq]
      exact and_congr_right fun _ => eq_comm
  | dir hsorted _ _ ih =>
    rw [zipNode] at hok ⊢
    split
    · rename_i hlong
      simp [hlong] at hok
    · rename_i hlong
      simp only [hlong, Bool.false_eq_true, if_false] at hok
      obtain ⟨-, hrest, hmembers⟩ := Packed.followedBy_eq hok
      obtain ⟨hnone, hall⟩ := zipEntries_eq hrest
      have hchild := fun entry hentry => ih entry hentry (hnone entry hentry)
      rw [hmembers, hall, Packed.one, List.singleton_append, List.mem_cons, List.mem_flatMap, Holds.dir_iff hsorted]
      simp only [reduceCtorEq, false_or]
      exact exists_congr fun entry => and_congr_right (hchild entry)

end StubRelease.Archive
