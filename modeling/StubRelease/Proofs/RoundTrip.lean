/-
# StubRelease.Proofs.RoundTrip -- a tree goes into an archive and comes back

An archive of a tree of directories and files holds one member for every place of the tree, in the order of
`Node.places`: a directory before what it holds, the entries of a directory ascending. Main statement: zipping
such a tree into a file outside it leaves the tree as it is, and makes an archive of exactly these members which
unpacks to the tree again, or stops at a name that is no text (`zipDirectory_round_trip`). Nothing is asked of
the rest of the store, so links may lead to the tree and to the file.
-/
import StubRelease.Proofs.Members
import StubRelease.Proofs.Tree.Writing

namespace StubRelease

open Sequence Node
open Route (slashByte)

/-! ## The places of a tree -/

namespace Node

mutual

/-- The places of a tree: its own first, then those of its entries, one entry after the other. -/
def places : Node → List (List Name)
  | .file _ _ => [[]]
  | .link _ => [[]]
  | .dir entries => [] :: placesIn entries

/-- The places in the entries of a directory. -/
def placesIn : List (Name × Node) → List (List Name)
  | [] => []
  | (name, child) :: rest => child.places.map (name :: ·) ++ placesIn rest

end

theorem mem_placesIn {entries : List (Name × Node)} {p : List Name} : p ∈ placesIn entries ↔
    ∃ entry ∈ entries, ∃ rest ∈ entry.2.places, p = entry.1 :: rest := by
  induction entries with
  | nil => simp [placesIn]
  | cons first more ih =>
    obtain ⟨name, child⟩ := first
    simp only [placesIn, List.mem_append, List.mem_map, ih, List.mem_cons, exists_eq_or_imp]
    simp only [eq_comm]

/-- Every place of a well-formed tree is listed, and no other. -/
theorem mem_places {n : Node} (hn : n.WellFormed) {p : List Name} : p ∈ n.places ↔ n.look p ≠ none := by
  induction hn generalizing p with
  | file content executable => cases p <;> simp [places, look, get?]
  | link target => cases p <;> simp [places, look, get?]
  | @dir entries hsorted _ _ ih =>
    cases p with
    | nil => simp [places]
    | cons name rest =>
      have hfind : (dir entries).look (name :: rest) ≠ none ↔
          ∃ child, Listing.find? name entries = some child ∧ child.look rest ≠ none := by
        rw [look_dir_cons]
        cases Listing.find? name entries <;> simp
      simp only [places, List.mem_cons, reduceCtorEq, false_or, mem_placesIn, List.cons.injEq, hfind]
      constructor
      · rintro ⟨⟨_, child⟩, hmem, _, hrest, rfl, rfl⟩
        exact ⟨child, Listing.find?_of_mem hsorted hmem, (ih _ hmem).1 hrest⟩
      · rintro ⟨child, hchild, hrest⟩
        have hmem := Listing.mem_of_find? hchild
        exact ⟨(name, child), hmem, rest, (ih _ hmem).2 hrest, rfl, rfl⟩

theorem pairwise_placesIn {entries : List (Name × Node)} (hsorted : Listing.Sorted entries)
    (h : ∀ entry ∈ entries, entry.2.places.Pairwise (· < ·)) : (placesIn entries).Pairwise (· < ·) := by
  induction entries with
  | nil => exact List.Pairwise.nil
  | cons first rest ih =>
    obtain ⟨name, child⟩ := first
    obtain ⟨hfirst, hrest⟩ := List.pairwise_cons.1 hsorted
    rw [placesIn, List.pairwise_append, List.pairwise_map]
    refine ⟨(h _ List.mem_cons_self).imp fun hlt => List.cons_lt_cons_iff.2 (.inr ⟨rfl, hlt⟩),
      ih hrest fun entry hentry => h entry (List.mem_cons_of_mem _ hentry), fun p hp q hq => ?_⟩
    obtain ⟨p, -, rfl⟩ := List.mem_map.1 hp
    obtain ⟨entry, hentry, q, -, rfl⟩ := mem_placesIn.1 hq
    exact List.cons_lt_cons_iff.2 (.inl (hfirst entry.1 (List.mem_map.2 ⟨entry, hentry, rfl⟩)))

/-- The places are listed in ascending order. -/
theorem pairwise_places {n : Node} (hn : n.WellFormed) : n.places.Pairwise (· < ·) := by
  induction hn with
  | file content executable => exact List.pairwise_singleton _ _
  | link target => exact List.pairwise_singleton _ _
  | @dir entries hsorted _ _ ih =>
    rw [places, List.pairwise_cons]
    refine ⟨fun p hp => ?_, pairwise_placesIn hsorted ih⟩
    obtain ⟨entry, -, rest, -, rfl⟩ := mem_placesIn.1 hp
    exact List.nil_lt_cons _ _

/-- The names of a tree are texts. -/
def Textual (n : Node) : Prop := ∀ p, n.look p ≠ none → ∀ name ∈ p, Bytes.toString? name ≠ none

theorem textual_iff {n : Node} (hn : n.WellFormed) :
    n.Textual ↔ ∀ p ∈ n.places, ∀ name ∈ p, Bytes.toString? name ≠ none :=
  forall_congr' fun _ => imp_congr_left (mem_places hn).symm

end Node

/-! ## The members of an archive -/

namespace Archive

/-- The name in an archive of what stands at a place of a tree. -/
def memberPath (top : Bytes) (p : List Name) : Bytes := top ++ p.flatMap fun name => slashByte :: name

theorem memberPath_cons (top : Bytes) (name : Name) (p : List Name) :
    memberPath top (name :: p) = memberPath (memberName top name) p := by
  simp [memberPath, memberName]

/-- The member that a place of a tree comes to. -/
def memberAt (top : Bytes) (n : Node) (p : List Name) : Member :=
  match n.get? p with
  | some (.file content _) => .file (memberPath top p) content
  | _ => .directory (memberPath top p ++ [slashByte])

theorem memberAt_cons {entries : Listing Node} {name : Name} {child : Node}
    (h : Listing.find? name entries = some child) (top : Bytes) (p : List Name) :
    memberAt top (.dir entries) (name :: p) = memberAt (memberName top name) child p := by
  rw [memberAt, memberAt, get?_dir_cons, h, Option.bind_some, memberPath_cons]

theorem isFile_memberAt (top : Bytes) (n : Node) (p : List Name) :
    (memberAt top n p).isFile = (n.get? p).any Node.isFile := by
  rw [memberAt]
  cases n.get? p with
  | none => rfl
  | some m => cases m <;> rfl

/-- The place that the name of a member spells is the place it comes from, under the one top name. -/
theorem memberPlace_memberAt {top : Name} (htop : memberPlace top = [top]) {n : Node} {p : List Name}
    (hp : ∀ name ∈ p, IsName name) : memberPlace (memberAt top n p).name = top :: p := by
  have hplace (front : Bytes) (hp : ∀ name ∈ p, IsName name) :
      memberPlace (memberPath front p) = memberPlace front ++ p := by
    induction p generalizing front with
    | nil => simp [memberPath]
    | cons name rest ih =>
      rw [memberPath_cons, ih (fun other hother => hp other (List.mem_cons_of_mem _ hother)) _
        fun other hother => hp other (List.mem_cons_of_mem _ hother),
        memberPlace_memberName front (hp name List.mem_cons_self), List.append_assoc, List.singleton_append]
  have hnamed : memberPlace (memberPath top p) = top :: p := by
    rw [hplace top hp, htop, List.singleton_append]
  rw [memberAt]
  split
  · exact hnamed
  · rw [Member.name, memberPlace_slash, hnamed]

mutual

/-- An archive of a node has a member for every place, in their order. -/
theorem members_zipNode (s : Store) (name path : Bytes) : (n : Node) → n.Plain →
    (zipNode s name path n).failure = none → (zipNode s name path n).members = n.places.map (memberAt name n)
  | .file content executable, _, hok => by
    rw [zipNode] at hok ⊢
    split
    · rename_i hlong
      simp [hlong] at hok
    · simp [Packed.one, places, memberAt, memberPath]
  | .link target, hn, _ => absurd rfl (hn.linkFree [] target)
  | .dir entries, hn, hok => by
    rw [zipNode] at hok ⊢
    split
    · rename_i hlong
      simp [hlong] at hok
    · rename_i hlong
      simp only [hlong, Bool.false_eq_true, if_false] at hok
      obtain ⟨-, hrest, hmembers⟩ := Packed.followedBy_eq hok
      rw [hmembers, members_zipEntries s name path entries entries hn.plain_of_mem
        (fun entry hentry => Listing.find?_of_mem hn.sorted hentry) hrest]
      simp [Packed.one, places, memberAt, memberPath]

/-- The members of some of the entries of a directory, at their places in the whole directory. -/
theorem members_zipEntries (s : Store) (name path : Bytes) (entries : Listing Node) : (rest : List (Name × Node)) →
    (∀ entry ∈ rest, IsName entry.1 ∧ entry.2.Plain) →
    (∀ entry ∈ rest, Listing.find? entry.1 entries = some entry.2) →
    (zipEntries s name path rest).failure = none →
    (zipEntries s name path rest).members = (placesIn rest).map (memberAt name (.dir entries))
  | [], _, _, _ => by rw [zipEntries, placesIn, List.map_nil]
  | (n, child) :: rest, hrest, hfind, hok => by
    rw [zipEntries] at hok ⊢
    cases htext : Bytes.toString? n with
    | none => simp [htext] at hok
    | some _ =>
      simp only [htext] at hok ⊢
      obtain ⟨hone, hmore, hmembers⟩ := Packed.followedBy_eq hok
      -- a place in the child is one in the directory, behind the child's name
      have hchild : (fun p => memberAt name (.dir entries) (n :: p)) = memberAt (memberName name n) child :=
        funext fun p => memberAt_cons (hfind (n, child) List.mem_cons_self) name p
      rw [hmembers, members_zipNode s (memberName name n) (entryPath path n) child
          (hrest (n, child) List.mem_cons_self).2 hone,
        members_zipEntries s name path entries rest
          (fun entry hentry => hrest entry (List.mem_cons_of_mem _ hentry))
          (fun entry hentry => hfind entry (List.mem_cons_of_mem _ hentry)) hmore,
        placesIn, List.map_append, List.map_map, ← hchild]
      rfl

end

/-! ## What stops an archive -/

theorem length_lt_entryPath (path : Bytes) {name : Name} (hname : name ≠ []) :
    path.length < (entryPath path name).length := by
  have hpos : 0 < name.length := List.length_pos_iff.2 hname
  rw [entryPath]
  split
  · simp_all
  · split <;> simp [hpos]

/-- The path of a node and of what is below it is not too long to be opened. -/
def Openable (path : Bytes) (n : Node) : Prop :=
  ∀ p, n.look p ≠ none → (p.foldl entryPath path).length < Route.lengthLimit

theorem Openable.not_tooLong {path : Bytes} {n : Node} (h : Openable path n) : tooLong path = false := by
  have hshort : path.length < Route.lengthLimit := h [] (by simp)
  simpa [tooLong] using hshort

theorem openable_iff {path : Bytes} {n : Node} (hn : n.WellFormed) :
    Openable path n ↔ ∀ p ∈ n.places, (p.foldl entryPath path).length < Route.lengthLimit :=
  forall_congr' fun _ => imp_congr_left (mem_places hn).symm

/-- Packing stops at a path that is too long. -/
theorem openable_of_zipNode {s : Store} {name path : Bytes} {n : Node} (hn : n.Plain)
    (hok : (zipNode s name path n).failure = none) : Openable path n := by
  intro p hp
  induction p generalizing n name path with
  | nil =>
    have hshort : tooLong path = false := by
      rw [Bool.eq_false_iff]
      intro hlong
      cases n with
      | file _ _ => simp [zipNode, hlong] at hok
      | link target => exact hn.linkFree [] target rfl
      | dir _ => simp [zipNode, hlong] at hok
    simpa [tooLong] using hshort
  | cons first rest ih =>
    cases n with
    | file _ _ => exact absurd rfl hp
    | link target => exact absurd rfl (hn.linkFree [] target)
    | dir entries =>
      rw [zipNode] at hok
      split at hok
      · cases hok
      · rw [look_dir_cons] at hp
        cases hchild : Listing.find? first entries with
        | none => simp [hchild] at hp
        | some child =>
          rw [hchild, Option.bind_some] at hp
          have hmem := Listing.mem_of_find? hchild
          exact ih (hn.plain_of_mem _ hmem).2 ((zipEntries_eq (Packed.followedBy_eq hok).2.1).1 _ hmem) hp

/-- A failure for a name in a tree that is no text. -/
def NamesNoText (path : Bytes) (n : Node) (f : Failure) : Prop :=
  ∃ p name, n.look (p ++ [name]) ≠ none ∧ Bytes.toString? name = none ∧
    f = .notText ((p ++ [name]).foldl entryPath path)

theorem NamesNoText.not_textual {path : Bytes} {n : Node} {f : Failure} (h : NamesNoText path n f) : ¬ n.Textual := by
  obtain ⟨p, name, hstands, hname, -⟩ := h
  exact fun htext => htext _ hstands name (by simp) hname

/-- What is in an entry is below the directory. -/
theorem NamesNoText.cons {path : Bytes} {entries : Listing Node} {name : Name} {child : Node} {f : Failure}
    (hchild : Listing.find? name entries = some child) (h : NamesNoText (entryPath path name) child f) :
    NamesNoText path (.dir entries) f := by
  obtain ⟨p, other, hstands, hname, rfl⟩ := h
  refine ⟨name :: p, other, ?_, hname, rfl⟩
  rwa [List.cons_append, look_dir_cons, hchild]

theorem Openable.child {path : Bytes} {entries : Listing Node} {name : Name} {child : Node}
    (hchild : Listing.find? name entries = some child) (h : Openable path (.dir entries)) :
    Openable (entryPath path name) child := by
  intro p hp
  refine h (name :: p) ?_
  rwa [look_dir_cons, hchild]

theorem Packed.failure_followedBy {p : Packed} (h : p.failure = none) (next : Packed) :
    (p.followedBy next).failure = next.failure := by
  rw [followedBy, h]

theorem Packed.followedBy_of_failure {p : Packed} {f : Failure} (h : p.failure = some f) (next : Packed) :
    (p.followedBy next).failure = some f := by
  rw [followedBy, h]
  exact h

/-- The names in a directory are texts if those of its entries are. -/
theorem textual_dir {entries : Listing Node}
    (h : ∀ entry ∈ entries, Bytes.toString? entry.1 ≠ none ∧ entry.2.Textual) : (Node.dir entries).Textual := by
  intro p hp name hname
  cases p with
  | nil => cases hname
  | cons first rest =>
    rw [look_dir_cons] at hp
    cases hchild : Listing.find? first entries with
    | none => simp [hchild] at hp
    | some child =>
      rw [hchild, Option.bind_some] at hp
      obtain ⟨hfirst, hrest⟩ := h (first, child) (Listing.mem_of_find? hchild)
      rcases List.mem_cons.1 hname with rfl | hname
      · exact hfirst
      · exact hrest rest hp name hname

mutual

/-- Packing a node stops at a name that is no text, or at nothing, and then all names are texts. -/
theorem zipNode_ends (s : Store) (name path : Bytes) : (n : Node) → n.Plain → Openable path n →
    (zipNode s name path n).failure = none ∧ n.Textual ∨
      ∃ f, (zipNode s name path n).failure = some f ∧ NamesNoText path n f
  | .file content executable, _, hopen => by
    rw [zipNode, hopen.not_tooLong, if_neg Bool.false_ne_true]
    refine .inl ⟨rfl, fun p hp name hname => ?_⟩
    cases p with
    | nil => cases hname
    | cons _ _ => exact absurd rfl hp
  | .link target, hn, _ => absurd rfl (hn.linkFree [] target)
  | .dir entries, hn, hopen => by
    rw [zipNode, hopen.not_tooLong, if_neg Bool.false_ne_true, Packed.failure_followedBy rfl]
    exact (zipEntries_ends s name path entries entries hn.plain_of_mem
      (fun entry hentry => Listing.find?_of_mem hn.sorted hentry) hopen).imp_left (And.imp_right textual_dir)

/-- The same of some of the entries of a directory. -/
theorem zipEntries_ends (s : Store) (name path : Bytes) (entries : Listing Node) : (rest : List (Name × Node)) →
    (∀ entry ∈ rest, IsName entry.1 ∧ entry.2.Plain) →
    (∀ entry ∈ rest, Listing.find? entry.1 entries = some entry.2) → Openable path (.dir entries) →
    (zipEntries s name path rest).failure = none ∧
        (∀ entry ∈ rest, Bytes.toString? entry.1 ≠ none ∧ entry.2.Textual) ∨
      ∃ f, (zipEntries s name path rest).failure = some f ∧ NamesNoText path (.dir entries) f
  | [], _, _, _ => .inl ⟨by rw [zipEntries], by simp⟩
  | (n, child) :: rest, hrest, hfind, hopen => by
    have hchild : Listing.find? n entries = some child := hfind (n, child) List.mem_cons_self
    rw [zipEntries]
    cases htext : Bytes.toString? n with
    | none =>
      refine .inr ⟨_, rfl, [], n, ?_, htext, rfl⟩
      rw [List.nil_append, look_dir_cons, hchild]
      simp
    | some text =>
      dsimp only
      obtain ⟨hone, htexts⟩ | ⟨f, hfailure, hnames⟩ := zipNode_ends s (memberName name n) (entryPath path n) child
        (hrest (n, child) List.mem_cons_self).2 (hopen.child hchild)
      · rw [Packed.failure_followedBy hone]
        refine (zipEntries_ends s name path entries rest
          (fun entry hentry => hrest entry (List.mem_cons_of_mem _ hentry))
          (fun entry hentry => hfind entry (List.mem_cons_of_mem _ hentry)) hopen).imp_left
            (And.imp_right fun hmore entry hentry => ?_)
        rcases List.mem_cons.1 hentry with rfl | hentry
        · exact ⟨by simp [htext], htexts⟩
        · exact hmore entry hentry
      · exact .inr ⟨f, Packed.followedBy_of_failure hfailure _, hnames.cons hchild⟩

end

/-! ## A tree goes into an archive and comes back -/

/-- The members are those of an archive of a tree under one top name: one for every place of the tree, a
directory before what it holds and the entries of a directory ascending, no two of one name, and unpacked they
are the tree again. -/
structure Zips (top : Name) (tree : Node) (members : List Member) : Prop where
  members_eq : members = tree.places.map (memberAt top tree)
  complete : ∀ p, p ∈ tree.places ↔ tree.look p ≠ none
  ascending : tree.places.Pairwise (· < ·)
  distinct : (members.map Member.name).Nodup
  unpacks : unpack members = .dir [(top, tree.withoutModes)]

/-- No two places of a tree come to members of one name. -/
theorem nodup_names {top : Name} (htop : memberPlace top = [top]) {n : Node} (hn : n.WellFormed) :
    ((n.places.map (memberAt top n)).map Member.name).Nodup := by
  have hplace {p : List Name} (hp : p ∈ n.places) : memberPlace (memberAt top n p).name = top :: p :=
    memberPlace_memberAt htop (hn.isName_of_look ((mem_places hn).1 hp))
  rw [List.map_map, List.Nodup, List.pairwise_map]
  refine (pairwise_places hn).imp_of_mem fun {p q} hp hq hlt heq => ?_
  have hsame : top :: p = top :: q := by
    rw [← hplace hp, ← hplace hq]
    exact congrArg memberPlace heq
  rw [(List.cons.inj hsame).2] at hlt
  exact List.lt_irrefl _ hlt

/-- An archive that was made without a failure is one of the tree. -/
theorem zips_zipNode (s : Store) {top : Name} (htop : memberPlace top = [top]) (path : Bytes) {n : Node} (hn : n.Plain)
    (hok : (zipNode s top path n).failure = none) : Zips top n (zipNode s top path n).members where
  members_eq := members_zipNode s top path n hn hok
  complete _ := mem_places hn.wellFormed
  ascending := pairwise_places hn.wellFormed
  distinct := members_zipNode s top path n hn hok ▸ nodup_names htop hn.wellFormed
  unpacks := unpack_zipNode htop hn hok

/-- As many files go into an archive as there are in the tree. -/
theorem files_zipNode (s : Store) (top path : Bytes) {n : Node} (hn : n.Plain)
    (hok : (zipNode s top path n).failure = none) :
    (zipNode s top path n).files = (n.places.filter fun p => (n.get? p).any Node.isFile).length := by
  rw [Packed.files, members_zipNode s top path n hn hok, List.filter_map, List.length_map]
  congr 1
  exact List.filter_congr fun p _ => isFile_memberAt top n p

variable {s : Store} {source output : Path} {rootName : String} {src q : List Name} {tree : Node}

/-- Zipping a tree into a file outside it puts the members of the tree as it stands into the file. -/
theorem zipDirectory_of_writesTo (hsource : s.placeOf false source.bytes = .ok src)
    (htree : s.top.get? src = some tree) (hdir : tree.isDir = true) (hwrites : s.WritesTo output.bytes q)
    (houtside : ¬ src <+: q) (rootName : String) :
    ∃ opened t executable,
      let packed := zipNode opened (Bytes.ofString rootName) source.bytes tree
      zipDirectory source rootName output s =
          (match packed.failure with
            | some failure => .error failure
            | none => .ok ⟨output, packed.files⟩, t) ∧
        t.top.get? src = some tree ∧ t.top.get? q = some (.file (.archive .zip packed.members) executable) := by
  obtain ⟨dir, name, executable, rfl, hparent, hempty⟩ := Files.emptyFile_of_writesTo hwrites
  obtain ⟨entries, rfl⟩ : ∃ entries, tree = .dir entries := by
    cases tree with
    | dir entries => exact ⟨entries, rfl⟩
    | file _ _ => cases hdir
    | link _ => cases hdir
  have hseen : s.top.look src = some .dir := look_eq_dir.2 ⟨entries, htree⟩
  -- the file is neither above the tree nor in it
  have habove : ¬ src <+: dir := fun h => houtside (h.trans (List.prefix_append _ _))
  have hat : ¬ dir ++ [name] <+: src := by
    intro hprefix
    have hnot : s.top.look (dir ++ [name]) ≠ some .dir := by
      obtain hnone | ⟨_, _, hfile⟩ := hwrites.look
      · simp [hnone]
      · simp [hfile]
    exact houtside (eq_of_isPrefix_of_look hnot hseen hprefix ▸ List.prefix_rfl)
  have hkept (content : Content) :
      (s.put dir name (.file content executable)).top.get? src = some (.dir entries) := by
    rw [Store.top_put, get?_put_elsewhere _ _ habove hat, htree]
  have hfill (old new : Content) : (s.put dir name (.file old executable)).fill (dir ++ [name]) new =
      s.put dir name (.file new executable) := Store.fill_put hparent _ _ _ _
  have hstands : s.isDir source.bytes = true := by
    rw [Store.isDir, Store.nodeAt_of_entry (Store.nodeAt_eq_ok.2 ⟨src, hsource, htree⟩) rfl]
    rfl
  have hsame : (s.put dir name (.file .unfinished executable)).nodeAt false source.bytes = .ok (.dir entries) := by
    obtain ⟨r, hread, hwalk⟩ := Store.placeOf_eq_ok.1 hsource
    -- opening and filling a file moves no directory and no link
    have hways := (Files.emptyFile_ways hempty).1.trans (Store.fill_ways _ (dir ++ [name]) .unfinished).1
    rw [hfill] at hways
    exact Store.nodeAt_eq_ok.2 ⟨src, Store.placeOf_eq_ok.2 ⟨r, hread, Store.walk_keeps hways.there hseen _ hwalk⟩, hkept _⟩
  refine ⟨s.put dir name (.file .unfinished executable), _, executable, ?_, hkept _, get?_put_self hparent _ _⟩
  rw [zipDirectory, bind_of_ok _ (require_eq_ok.2 ⟨hstands, rfl⟩), bind_of_ok _ (ofFiles_eq_ok.2 hempty)]
  simp only [run_bind, run_get, run_modify, whileWriting, hsame, hfill]
  cases (zipNode _ (Bytes.ofString rootName) source.bytes (.dir entries)).failure <;> rfl

/-- Zipping a tree of directories and files into a file outside it leaves the tree as it is. If all names in the
tree are texts it succeeds, counts the files of the tree, and the archive is one of the tree; otherwise it fails
at a name that is no text. -/
theorem zipDirectory_round_trip (hsource : s.placeOf false source.bytes = .ok src)
    (htree : s.top.get? src = some tree) (hdir : tree.isDir = true) (hplain : tree.Plain)
    (hopen : Openable source.bytes tree) (hname : rootName ≠ "") (hslash : slashByte ∉ Bytes.ofString rootName)
    (hwrites : s.WritesTo output.bytes q) (houtside : ¬ src <+: q) :
    (zipDirectory source rootName output s).2.top.get? src = some tree ∧
      (tree.Textual →
        (zipDirectory source rootName output s).1 =
            .ok ⟨output, (tree.places.filter fun p => (tree.get? p).any Node.isFile).length⟩ ∧
          ∃ members executable,
            (zipDirectory source rootName output s).2.top.get? q = some (.file (.archive .zip members) executable) ∧
            Zips (Bytes.ofString rootName) tree members) ∧
      (¬ tree.Textual → ∃ f, (zipDirectory source rootName output s).1 = .error f ∧
        NamesNoText source.bytes tree f) := by
  obtain ⟨opened, t, executable, hrun, hkept, hfile⟩ :=
    zipDirectory_of_writesTo hsource htree hdir hwrites houtside rootName
  have htop : memberPlace (Bytes.ofString rootName) = [Bytes.ofString rootName] := by
    have hne : Bytes.ofString rootName ≠ [] := fun h => hname (Bytes.ofString_injective h)
    have hcut : ∀ b ∈ Bytes.ofString rootName, (b == slashByte) = false := by
      intro b hb
      rw [beq_eq_false_iff_ne]
      rintro rfl
      exact hslash hb
    simp [memberPlace, Path.pieces_of_forall hcut, hne]
  rw [hrun]
  -- either all names are texts and packing is through, or it has stopped at one that is not
  obtain ⟨hok, htext⟩ | ⟨f, hfailure, hnames⟩ :=
    zipNode_ends opened (Bytes.ofString rootName) source.bytes tree hplain hopen
  · refine ⟨hkept, fun _ => ⟨?_, _, executable, hfile, zips_zipNode opened htop source.bytes hplain hok⟩,
      fun hnot => absurd htext hnot⟩
    simp only [hok, files_zipNode opened _ source.bytes hplain hok]
  · refine ⟨hkept, fun htext => absurd htext hnames.not_textual, fun _ => ⟨f, ?_, hnames⟩⟩
    simp only [hfailure]

end Archive

/-! ## A directory beside a file -/

/-- A tree that holds a file in a directory and another one beside the directory, and an empty directory. -/
def mixedTree : Node :=
  ((emptyDir.put [] (Bytes.ofString "m.py") (.ofBytes [10])).put [] (Bytes.ofString "m")
    (emptyDir.put [] (Bytes.ofString "a.py") (.ofBytes []))).put [] (Bytes.ofString "e") .emptyDir

theorem plain_mixedTree : mixedTree.Plain :=
  ((Plain.emptyDir.put [] (by decide) (.file _ _)).put [] (by decide)
    (Plain.emptyDir.put [] (by decide) (.file _ _))).put [] (by decide) .emptyDir

/-- The place order is not the order of the members' names. -/
example : (mixedTree.places.map fun p => (Archive.memberAt (Bytes.ofString "r") mixedTree p).name) =
    ["r/", "r/e/", "r/m/", "r/m/a.py", "r/m.py"].map Bytes.ofString := by decide +kernel

/-- The tree beside a link that leads into a directory that does not exist. -/
def mixedStore : Store :=
  ⟨(emptyDir.put [] (Bytes.ofString "t") mixedTree).put [] (Bytes.ofString "l") (.link (Bytes.ofString "gone/o")), []⟩

theorem textual_mixedTree : mixedTree.Textual := (textual_iff plain_mixedTree.wellFormed).2 (by decide +kernel)

theorem openable_mixedTree : Archive.Openable (Bytes.ofString "/t") mixedTree :=
  (Archive.openable_iff plain_mixedTree.wellFormed).2 (by decide +kernel)

theorem mixedStore_writesTo : mixedStore.WritesTo (Bytes.ofString "/o") ([] ++ [Bytes.ofString "o"]) := .free rfl

/-- The tree goes into an archive and comes back. -/
theorem mixedTree_round_trip :
    mixedStore.placeOf false (Path.bytes ⟨"/t"⟩) = .ok [Bytes.ofString "t"] ∧
      mixedStore.top.get? [Bytes.ofString "t"] = some mixedTree ∧ mixedTree.Plain ∧
      Archive.Openable (Bytes.ofString "/t") mixedTree ∧
      mixedStore.WritesTo (Bytes.ofString "/o") [Bytes.ofString "o"] ∧
      let run := Archive.zipDirectory ⟨"/t"⟩ "r" ⟨"/o"⟩ mixedStore
      run.2.top.get? [Bytes.ofString "t"] = some mixedTree ∧ run.1 = .ok ⟨⟨"/o"⟩, 2⟩ ∧
        ∃ members executable,
          run.2.top.get? [Bytes.ofString "o"] = some (.file (.archive .zip members) executable) ∧
            Archive.Zips (Bytes.ofString "r") mixedTree members := by
  have hsource : mixedStore.placeOf false (Path.bytes ⟨"/t"⟩) = .ok [Bytes.ofString "t"] := rfl
  have htree : mixedStore.top.get? [Bytes.ofString "t"] = some mixedTree := rfl
  obtain ⟨hkept, htext, -⟩ := Archive.zipDirectory_round_trip hsource htree rfl plain_mixedTree openable_mixedTree
    (show "r" ≠ "" by decide) (by decide) mixedStore_writesTo (by decide)
  exact ⟨hsource, htree, plain_mixedTree, openable_mixedTree, mixedStore_writesTo, hkept, htext textual_mixedTree⟩

/-- The same tree does not go into an archive if its path is written with too many slashes, nor if the archive is
written to a name that is too long, to a path that ends in a slash or along a link that leads nowhere. -/
theorem mixedTree_stays_out :
    mixedTree.Plain ∧ mixedTree.Textual ∧
      mixedStore.nodeAt false (Path.slashed ⟨"/t"⟩ 4093).bytes = .ok mixedTree ∧
      errorOf (Archive.zipDirectory (.slashed ⟨"/t"⟩ 4093) "r" ⟨"/o"⟩ mixedStore).1 ≠ none ∧
      errorOf (Archive.zipDirectory ⟨"/t"⟩ "r" ⟨"/" ++ String.ofList (List.replicate 256 'o')⟩ mixedStore).1 =
        some (.io (.os .nameTooLong)) ∧
      errorOf (Archive.zipDirectory ⟨"/t"⟩ "r" ⟨"/o/"⟩ mixedStore).1 = some (.io (.os .isDirectory)) ∧
      errorOf (Archive.zipDirectory ⟨"/t"⟩ "r" ⟨"/l"⟩ mixedStore).1 = some (.io (.os .notFound)) := by
  have hsource : mixedStore.placeOf false (Path.slashed ⟨"/t"⟩ 4093).bytes = .ok [Bytes.ofString "t"] := by
    rw [Store.placeOf, Store.locate, Route.read_slashed (by decide) (by decide) (by decide) (by decide)]
    rfl
  have htree : mixedStore.top.get? [Bytes.ofString "t"] = some mixedTree := rfl
  refine ⟨plain_mixedTree, textual_mixedTree, Store.nodeAt_eq_ok.2 ⟨_, hsource, htree⟩, ?_, by decide +kernel,
    by decide +kernel, by decide +kernel⟩
  obtain ⟨opened, t, executable, hrun, -⟩ :=
    Archive.zipDirectory_of_writesTo hsource htree rfl mixedStore_writesTo (by decide) "r"
  rw [hrun]
  cases hfailure : (Archive.zipNode opened (Bytes.ofString "r") (Path.slashed ⟨"/t"⟩ 4093).bytes mixedTree).failure with
  | some f => simp [errorOf]
  | none =>
    -- the path of the tree is one byte short of the limit, and that of its first entry is not
    have hshort := Archive.openable_of_zipNode plain_mixedTree hfailure [Bytes.ofString "e"] (by decide)
    have hlonger := Archive.length_lt_entryPath (Path.slashed ⟨"/t"⟩ 4093).bytes
      (show Bytes.ofString "e" ≠ [] by decide)
    have hlength : (Path.slashed ⟨"/t"⟩ 4093).bytes.length = 2 + 4093 := by
      rw [Path.bytes_slashed, List.length_append, List.length_replicate]
      rfl
    rw [List.foldl_cons, List.foldl_nil, Route.lengthLimit] at hshort
    omega

end StubRelease
