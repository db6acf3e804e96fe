/-
# StubRelease.Proofs.Unpacking -- the tree an archive holds

Unpacking puts one member after the other at the place its name spells. Members unpack to a node if they put
it where its name says; those of a directory do whatever the order of its entries, since a listing does not
remember in which order its entries came (`Unpacks.dir`). Main statements: what was packed of a tree without
links, in either kind of archive, unpacks to that tree under its one top name (`unpack_zipNode`,
`unpack_tarNode`). Packing keeps no permission, so neither does the tree that comes back.
-/
import StubRelease.Archive.Tarball
import StubRelease.Proofs.Tree.Changes
import StubRelease.Proofs.Tree.Steps

namespace StubRelease

open Route (slashByte)

/-! ## Unpacking -/

namespace Archive

/-- The place a member's name spells: the names between its slashes. -/
def memberPlace (name : Bytes) : List Name :=
  (Path.pieces (· == slashByte) name).filter (· ≠ [])

/-- Puts a member into a tree. A directory that is there already stays as it is. -/
def unpackMember (tree : Node) (m : Member) : Node :=
  let place := memberPlace m.name
  match place.getLast? with
  | none => tree
  | some last =>
    match m with
    | .file _ content => tree.put place.dropLast last (.file content false)
    | .directory _ =>
      match tree.get? place with
      | some _ => tree
      | none => tree.put place.dropLast last .emptyDir

/-- The tree that members unpack to, one after the other. -/
def unpack (members : List Member) : Node := members.foldl unpackMember .emptyDir

end Archive

mutual

/-- A tree in which no file may be executed. -/
def Node.withoutModes : Node → Node
  | .file content _ => .file content false
  | .link target => .link target
  | .dir entries => .dir (Node.entriesWithoutModes entries)

def Node.entriesWithoutModes : List (Name × Node) → List (Name × Node)
  | [] => []
  | (name, child) :: rest => (name, child.withoutModes) :: Node.entriesWithoutModes rest

end

theorem Node.entriesWithoutModes_eq (entries : Listing Node) :
    Node.entriesWithoutModes entries = entries.map fun entry => (entry.1, entry.2.withoutModes) := by
  induction entries with
  | nil => rfl
  | cons entry rest ih => rw [Node.entriesWithoutModes, ih, List.map_cons]

/-! ## Listings put together -/

namespace Listing

variable {α : Type}

/-- Entries that are put into a listing leave what has other names. -/
theorem find?_foldl_put_of_notMem {name : Name} {entries : List (Name × α)} (h : name ∉ entries.map (·.1))
    (l : Listing α) : find? name (entries.foldl (fun l entry => put entry.1 entry.2 l) l) = find? name l := by
  induction entries generalizing l with
  | nil => rfl
  | cons entry rest ih =>
    obtain ⟨hne, hrest⟩ := not_or.1 (mt List.mem_cons.2 h)
    rw [List.foldl_cons, ih hrest, find?_put_ne _ _ hne]

/-- Entries of different names that are put into a listing are found there. -/
theorem find?_foldl_put_of_mem {entries : List (Name × α)} (hnodup : (entries.map (·.1)).Nodup) {name : Name} {a : α}
    (h : (name, a) ∈ entries) (l : Listing α) :
    find? name (entries.foldl (fun l entry => put entry.1 entry.2 l) l) = some a := by
  induction entries generalizing l with
  | nil => cases h
  | cons entry rest ih =>
    obtain ⟨hnotMem, hrest⟩ := List.nodup_cons.1 hnodup
    rw [List.foldl_cons]
    rcases List.mem_cons.1 h with rfl | hlater
    · rw [find?_foldl_put_of_notMem hnotMem, find?_put_self]
    · exact ih hrest hlater _

theorem Sorted.foldl_put {l : Listing α} (h : l.Sorted) (entries : List (Name × α)) :
    Sorted (entries.foldl (fun l entry => Listing.put entry.1 entry.2 l) l) := by
  induction entries generalizing l with
  | nil => exact h
  | cons entry rest ih => exact ih (h.put entry.1 entry.2)

/-- A listing does not remember in which order its entries came. -/
theorem foldl_put_of_perm {l : Listing α} (h : l.Sorted) {entries : List (Name × α)} (hperm : entries.Perm l) :
    entries.foldl (fun l entry => put entry.1 entry.2 l) [] = l := by
  have hnodup : (entries.map (·.1)).Nodup := (hperm.map _).nodup_iff.2 h.nodup_names
  have hempty : Sorted ([] : Listing α) := List.Pairwise.nil
  refine eq_of_find? (hempty.foldl_put entries) h fun name => ?_
  cases hfind : find? name l with
  | some a => exact find?_foldl_put_of_mem hnodup (hperm.mem_iff.2 (mem_of_find? hfind)) []
  | none =>
    refine find?_foldl_put_of_notMem (fun hmem => ?_) []
    obtain ⟨⟨_, a⟩, hentry, rfl⟩ := List.mem_map.1 hmem
    rw [find?_of_mem h (hperm.mem_iff.1 hentry)] at hfind
    cases hfind

/-- In any order of their names the entries are the same. -/
theorem inOrder_perm {l : Listing α} (h : l.Sorted) {order : List Name} (hperm : order.Perm (names l)) :
    (inOrder order l).Perm l := by
  have hself (entries : List (Name × α)) (hentries : ∀ entry ∈ entries, entry ∈ l) :
      inOrder (names entries) l = entries := by
    induction entries with
    | nil => rfl
    | cons entry rest ih =>
      obtain ⟨hentry, hrest⟩ := List.forall_mem_cons.1 hentries
      have hrest := ih hrest
      simp only [inOrder, names, List.map_cons, List.filterMap_cons, find?_of_mem h hentry, Option.map_some] at hrest ⊢
      rw [hrest]
  exact (hperm.filterMap _).trans (.of_eq (hself l fun _ hentry => hentry))

theorem find?_map {β : Type} (f : Name × α → β) (name : Name) (l : Listing α) :
    find? name (l.map fun entry => (entry.1, f entry)) = (find? name l).map fun a => f (name, a) := by
  induction l with
  | nil => rfl
  | cons entry rest ih =>
    obtain ⟨n, a⟩ := entry
    by_cases hn : n = name
    · simp [find?, hn]
    · simpa [find?, hn] using ih

theorem inOrder_map {β : Type} (f : Name × α → β) (order : List Name) (l : Listing α) :
    inOrder order (l.map fun entry => (entry.1, f entry)) = (inOrder order l).map fun entry => (entry.1, f entry) := by
  simp only [inOrder, find?_map, List.map_filterMap, Option.map_map, Function.comp_def]

end Listing

/-! ## Edits of directories -/

namespace Node

/-- An edit of what was just put somewhere can be made before it is put there. -/
theorem editDir_put (edit : Listing Node → Listing Node) (place : List Name) (name : Name)
    (n child : Node) :
    editDir edit (place ++ [name]) (n.put place name child) =
      n.put place name (editDir edit [] child) := by
  rw [put, put]
  induction place generalizing n with
  | nil =>
    cases n with
    | file _ _ => rfl
    | link _ => rfl
    | dir entries => simp [editDir]
  | cons first rest ih =>
    cases n with
    | file _ _ => rfl
    | link _ => rfl
    | dir entries =>
      rw [List.cons_append, editDir, editDir]
      cases hchild : Listing.find? first entries with
      | none => simp [editDir, hchild]
      | some child => simp [editDir, ih]

end Node

namespace Node.Plain

variable {entries : List (Name × Node)} (h : (Node.dir entries).Plain)

include h

theorem sorted : Listing.Sorted entries := by
  cases h.wellFormed with
  | dir hsorted _ _ => exact hsorted

/-- The entries of a plain directory are plain, under names. -/
theorem plain_of_mem : ∀ entry ∈ entries, IsName entry.1 ∧ entry.2.Plain := by
  intro entry hentry
  have hfind := Listing.find?_of_mem h.sorted hentry
  have hget : (Node.dir entries).get? [entry.1] = some entry.2 := by
    rw [Node.get?_dir_cons, hfind, Option.bind_some, Node.get?_nil]
  exact ⟨(h.wellFormed.find? hfind).1, h.get? hget⟩

end Node.Plain

/-! ## What was packed -/

namespace Archive

theorem Packed.followedBy_eq {p next : Packed} (h : (p.followedBy next).failure = none) :
    p.failure = none ∧ next.failure = none ∧
      (p.followedBy next).members = p.members ++ next.members := by
  rw [followedBy] at h ⊢
  cases hp : p.failure with
  | some failure => simp [hp] at h
  | none =>
    rw [hp] at h
    exact ⟨rfl, h, rfl⟩

theorem memberPlace_memberName (dir : Bytes) {name : Name} (h : IsName name) :
    memberPlace (memberName dir name) = memberPlace dir ++ [name] := by
  rw [memberPlace, memberName, Path.pieces_append_cons (by simp), List.filter_append,
    Path.pieces_of_isName h]
  simp [memberPlace, h.ne_nil]

theorem memberPlace_of_isName {name : Name} (h : IsName name) : memberPlace name = [name] := by
  rw [memberPlace, Path.pieces_of_isName h]
  simp [h.ne_nil]

theorem memberPlace_slash (name : Bytes) : memberPlace (name ++ [slashByte]) = memberPlace name := by
  rw [memberPlace, Path.pieces_append_cons (by simp), List.filter_append]
  simp [memberPlace, Path.pieces]

theorem unpackMember_file (tree : Node) {name : Bytes} (content : Content) {dir : List Name}
    {last : Name} (h : memberPlace name = dir ++ [last]) :
    unpackMember tree (.file name content) = tree.put dir last (.file content false) := by
  simp [unpackMember, Member.name, h]

theorem unpackMember_directory {tree : Node} {name : Bytes} {dir : List Name} {last : Name}
    (h : memberPlace name = dir ++ [last]) (hnone : tree.get? (dir ++ [last]) = none) :
    unpackMember tree (.directory name) = tree.put dir last .emptyDir := by
  simp [unpackMember, Member.name, h, hnone]

/-- What was packed whole part by part. -/
theorem Packed.all_eq {parts : List Packed} (h : (all parts).failure = none) :
    (∀ part ∈ parts, part.failure = none) ∧ (all parts).members = parts.flatMap Packed.members := by
  induction parts with
  | nil => exact ⟨nofun, rfl⟩
  | cons first rest ih =>
    obtain ⟨hone, hmore, hmembers⟩ := followedBy_eq h
    obtain ⟨hnone, heq⟩ := ih hmore
    refine ⟨List.forall_mem_cons.2 ⟨hone, hnone⟩, ?_⟩
    rw [List.flatMap_cons, ← heq]
    exact hmembers

/-! ### Members that unpack to a node -/

/-- Members put a node where its name says, if nothing is there. -/
def Unpacks (name : Bytes) (n : Node) (members : List Member) : Prop :=
  ∀ (tree : Node) (dir : List Name) (last : Name), memberPlace name = dir ++ [last] → tree.look dir = some .dir →
    tree.get? (dir ++ [last]) = none → members.foldl unpackMember tree = tree.put dir last n.withoutModes

theorem Unpacks.file (name : Bytes) (content : Content) (executable : Bool) :
    Unpacks name (.file content executable) [.file name content] := by
  intro tree dir last hplace _ _
  rw [List.foldl_cons, List.foldl_nil, unpackMember_file tree content hplace, Node.withoutModes]

/-- The entries of a directory are added to it one after the other. -/
theorem foldl_unpackMember_flatMap {name : Bytes} {part : Name × Node → List Member} {entries : List (Name × Node)}
    (hparts : ∀ entry ∈ entries, IsName entry.1 ∧ Unpacks (memberName name entry.1) entry.2 (part entry))
    (hnodup : (entries.map (·.1)).Nodup) {tree : Node} {dir : List Name} {last : Name}
    (hplace : memberPlace name = dir ++ [last]) (hdir : tree.look dir = some .dir) (added : Listing Node)
    (hnew : ∀ entry ∈ entries, Listing.find? entry.1 added = none) :
    (entries.flatMap part).foldl unpackMember (tree.put dir last (.dir added)) = tree.put dir last
      (.dir ((Node.entriesWithoutModes entries).foldl (fun l entry => Listing.put entry.1 entry.2 l) added)) := by
  -- on the entries: each one is put into the listing of those that came before it
  induction entries generalizing added with
  | nil => rfl
  | cons entry rest ih =>
    obtain ⟨hname, hunpacks⟩ := hparts entry List.mem_cons_self
    obtain ⟨hnotMem, hrest⟩ := List.nodup_cons.1 hnodup
    have hplaced : (tree.put dir last (.dir added)).look (dir ++ [last]) = some .dir :=
      Node.look_put hdir last _ []
    have hnone : (tree.put dir last (.dir added)).get? (dir ++ [last] ++ [entry.1]) = none := by
      rw [List.append_assoc, List.singleton_append, Node.get?_put hdir, Node.get?_dir_cons,
        hnew entry List.mem_cons_self, Option.bind_none]
    have hput : (part entry).foldl unpackMember (tree.put dir last (.dir added)) =
        tree.put dir last (.dir (Listing.put entry.1 entry.2.withoutModes added)) := by
      rw [hunpacks _ _ _ (by rw [memberPlace_memberName name hname, hplace]) hplaced hnone, Node.put, Node.editDir_put,
        Node.editDir]
    rw [List.flatMap_cons, List.foldl_append, hput, Node.entriesWithoutModes, List.foldl_cons]
    refine ih (fun other hother => hparts other (List.mem_cons_of_mem _ hother)) hrest _ fun other hother => ?_
    have hne : other.1 ≠ entry.1 := fun heq => hnotMem (List.mem_map.2 ⟨other, hother, heq⟩)
    rw [Listing.find?_put_ne _ _ hne, hnew other (List.mem_cons_of_mem _ hother)]

/-- A directory is unpacked before its entries, and these come in any order. -/
theorem Unpacks.dir {name mark : Bytes} (hmark : memberPlace (name ++ mark) = memberPlace name)
    {entries arranged : Listing Node} (hsorted : Listing.Sorted entries) (hperm : arranged.Perm entries)
    {part : Name × Node → List Member}
    (hparts : ∀ entry ∈ entries, IsName entry.1 ∧ Unpacks (memberName name entry.1) entry.2 (part entry)) :
    Unpacks name (.dir entries) (.directory (name ++ mark) :: arranged.flatMap part) := by
  intro tree dir last hplace hdir hnone
  have hnodup : (arranged.map (·.1)).Nodup := (hperm.map _).nodup_iff.2 hsorted.nodup_names
  have hsorted' : Listing.Sorted (Node.entriesWithoutModes entries) := by
    rw [Node.entriesWithoutModes_eq, Listing.Sorted, Listing.names, List.map_map]
    exact hsorted
  have hperm' : (Node.entriesWithoutModes arranged).Perm (Node.entriesWithoutModes entries) := by
    rw [Node.entriesWithoutModes_eq, Node.entriesWithoutModes_eq]
    exact hperm.map _
  rw [List.foldl_cons, unpackMember_directory (hmark.trans hplace) hnone, Node.emptyDir,
    foldl_unpackMember_flatMap (fun entry hentry => hparts entry (hperm.mem_iff.1 hentry)) hnodup hplace hdir
      [] (fun _ _ => rfl), Listing.foldl_put_of_perm hsorted' hperm', Node.withoutModes]

/-- Members that unpack to a node under one top name unpack to the tree with that node under that name. -/
theorem Unpacks.unpack {name : Name} {n : Node} {members : List Member} (h : Unpacks name n members)
    (hname : memberPlace name = [name]) : unpack members = .dir [(name, n.withoutModes)] := by
  rw [Archive.unpack, h .emptyDir [] name hname rfl rfl]
  rfl

/-! ### What was packed -/

theorem zipEntries_eq {s : Store} {name path : Bytes} {entries : List (Name × Node)}
    (h : (zipEntries s name path entries).failure = none) :
    (∀ entry ∈ entries, (zipNode s (memberName name entry.1) (entryPath path entry.1) entry.2).failure = none) ∧
      (zipEntries s name path entries).members = entries.flatMap fun entry =>
        (zipNode s (memberName name entry.1) (entryPath path entry.1) entry.2).members := by
  induction entries with
  | nil => exact ⟨nofun, by rw [zipEntries]; rfl⟩
  | cons entry rest ih =>
    obtain ⟨n, child⟩ := entry
    rw [zipEntries] at h ⊢
    cases htext : Bytes.toString? n with
    | none => simp [htext] at h
    | some _ =>
      simp only [htext] at h ⊢
      obtain ⟨hone, hmore, hmembers⟩ := Packed.followedBy_eq h
      obtain ⟨hnone, heq⟩ := ih hmore
      rw [hmembers, heq]
      exact ⟨List.forall_mem_cons.2 ⟨hone, hnone⟩, rfl⟩

/-- A tree without links that was zipped whole unpacks to itself. -/
theorem zipNode_unpacks {s : Store} {name path : Bytes} {n : Node} (hn : n.Plain)
    (hok : (zipNode s name path n).failure = none) : Unpacks name n (zipNode s name path n).members := by
  have hwellFormed := hn.wellFormed
  induction hwellFormed generalizing name path with
  | file content executable =>
    rw [zipNode] at hok ⊢
    split
    · rename_i hlong
      simp [hlong] at hok
    · exact .file name content executable
  | link target => exact absurd rfl (hn.linkFree [] target)
  | @dir entries hsorted _ _ ih =>
    rw [zipNode] at hok ⊢
    split
    · rename_i hlong
      simp [hlong] at hok
    · rename_i hlong
      simp only [hlong, Bool.false_eq_true, if_false] at hok
      obtain ⟨-, hrest, hmembers⟩ := Packed.followedBy_eq hok
      obtain ⟨hnone, heq⟩ := zipEntries_eq hrest
      rw [hmembers, heq]
      refine .dir (memberPlace_slash name) hsorted (.refl _) fun entry hentry => ?_
      obtain ⟨hname, hchild⟩ := hn.plain_of_mem entry hentry
      exact ⟨hname, ih entry hentry hchild (hnone entry hentry)⟩

theorem tarEntriesWith_eq (order : Listing.Order) (jump : Bytes → Bytes → Node → Packed) (s : Store)
    (name path : Bytes) (entries : Listing Node) :
    tarEntriesWith order jump s name path entries = entries.map fun entry =>
      (entry.1, tarNodeWith order jump s (memberName name entry.1) (entryPath path entry.1) entry.2) := by
  induction entries with
  | nil => rw [tarEntriesWith, List.map_nil]
  | cons entry rest ih => rw [tarEntriesWith, ih, List.map_cons]

/-- A tree without links that was added whole to a tarball unpacks to itself, whatever a link would have led to. -/
theorem tarNodeWith_unpacks {order : Listing.Order} {jump : Bytes → Bytes → Node → Packed} {s : Store}
    {name path : Bytes} {n : Node} (hn : n.Plain) (hok : (tarNodeWith order jump s name path n).failure = none) :
    Unpacks name n (tarNodeWith order jump s name path n).members := by
  have hwellFormed := hn.wellFormed
  induction hwellFormed generalizing name path with
  | file content executable =>
    rw [tarNodeWith] at hok ⊢
    split
    · rename_i hlong
      simp [hlong] at hok
    · exact .file name content executable
  | link target => exact absurd rfl (hn.linkFree [] target)
  | @dir entries hsorted _ _ ih =>
    rw [tarNodeWith] at hok ⊢
    split
    · rename_i hlong
      simp [hlong] at hok
    · rename_i hlong
      simp only [hlong, Bool.false_eq_true, if_false, tarEntriesWith_eq, Listing.inOrder_map, List.map_map,
        Function.comp_def] at hok ⊢
      obtain ⟨-, hrest, hmembers⟩ := Packed.followedBy_eq hok
      obtain ⟨hnone, heq⟩ := Packed.all_eq hrest
      have harranged := Listing.inOrder_perm hsorted (order.perm path (Listing.names entries))
      have hparts (entry : Name × Node) (hentry : entry ∈ entries) : IsName entry.1 ∧
          Unpacks (memberName name entry.1) entry.2
            (tarNodeWith order jump s (memberName name entry.1) (entryPath path entry.1) entry.2).members := by
        obtain ⟨hname, hchild⟩ := hn.plain_of_mem entry hentry
        exact ⟨hname, ih entry hentry hchild (hnone _ (List.mem_map.2 ⟨entry, harranged.mem_iff.2 hentry, rfl⟩))⟩
      have hmark : memberPlace (name ++ []) = memberPlace name := by rw [List.append_nil]
      have hunpacks := Unpacks.dir hmark hsorted harranged hparts
      rw [hmembers, heq, Packed.one, List.singleton_append, List.flatMap_map]
      rwa [List.append_nil] at hunpacks

theorem tarNode_unpacks {order : Listing.Order} {s : Store} {hops : Nat} {name path : Bytes} {n : Node}
    (hn : n.Plain) (hok : (tarNode order s hops name path n).failure = none) :
    Unpacks name n (tarNode order s hops name path n).members := by
  cases hops with
  | zero => exact tarNodeWith_unpacks hn hok
  | succ hops => exact tarNodeWith_unpacks hn hok

/-- Unpacking what was zipped of a tree without links gives the tree back. -/
theorem unpack_zipNode {s : Store} {name : Name} {path : Bytes} {n : Node} (hname : memberPlace name = [name])
    (hn : n.Plain) (hok : (zipNode s name path n).failure = none) :
    unpack (zipNode s name path n).members = .dir [(name, n.withoutModes)] :=
  (zipNode_unpacks hn hok).unpack hname

/-- Unpacking a tarball of a tree without links gives the tree back. -/
theorem unpack_tarNode {order : Listing.Order} {s : Store} {hops : Nat} {name : Name} {path : Bytes} {n : Node}
    (hname : memberPlace name = [name]) (hn : n.Plain) (hok : (tarNode order s hops name path n).failure = none) :
    unpack (tarNode order s hops name path n).members = .dir [(name, n.withoutModes)] :=
  (tarNode_unpacks hn hok).unpack hname

end Archive

end StubRelease
