/-
# StubRelease.Proofs.Tarballs -- packing directories under a root

A directory under the root is packed exactly where it and its tarball can be found, no directory stands in the
tarball's place, and no path in it is too long (`Archive.Packable`). Then nothing but the tarball has changed,
and it unpacks to the directory (`createTarball_of_packable`). In which order a directory hands out its entries comes
into none of this: what is packed in two orders differs in its tarballs at most, and these unpack to the same trees
(`tarballs_repack`).
-/
import StubRelease.Archive.Tarball
import StubRelease.Proofs.Archiving
import StubRelease.Proofs.Layout
import StubRelease.Proofs.RoundTrip

namespace StubRelease

open Sequence Node
open Route (slashByte)

/-! ## Names and places -/

/-- An entry of a directory goes by its name. -/
theorem Path.lastName?_div {p : Path} {text : String} (hname : IsName (Bytes.ofString text)) :
    Path.lastName? (p / text).bytes = some (Bytes.ofString text) := by
  have hslash : Bytes.ofChar '/' = slashByte := by decide
  have hlast (before : List Bytes) : (before ++ [Bytes.ofString text]).getLast? = some (Bytes.ofString text) := by
    simp
  have hkept : [Bytes.ofString text].filter (fun piece => piece ≠ [] ∧ piece ≠ [Bytes.ofChar '.']) =
      [Bytes.ofString text] := by
    simp [hname.ne_nil, hname.ne_here]
  have hfound {bs : Bytes} (hbs : ∃ before, Path.pieces (· == slashByte) bs = before ++ [Bytes.ofString text]) :
      Path.lastName? bs = some (Bytes.ofString text) := by
    obtain ⟨before, hbefore⟩ := hbs
    simp only [Path.lastName?, hslash, hbefore, List.filter_append, hkept, hlast, if_neg hname.ne_up]
  apply hfound
  obtain ⟨-, hbytes⟩ | ⟨front, hbytes, -⟩ := Path.bytes_div (p := p) hname
  · exact ⟨[], by rw [hbytes, Path.pieces_of_isName hname, List.nil_append]⟩
  · refine ⟨Path.pieces (· == slashByte) front, ?_⟩
    rw [hbytes, Path.pieces_append_cons (by simp), Path.pieces_of_isName hname]

namespace Layout

/-- The directories that are packed. -/
def packedNames : List String := [rawModulesName, releaseName]

/-- The place of the tarball of a directory under the root, when the root is the directory at `d`. -/
def tarballAt (d : List Name) (name : String) : List Name := d ++ [Bytes.ofString (name ++ ".tar.gz")]

theorem isName_packed : ∀ name ∈ packedNames, IsName (Bytes.ofString name) ∧
    IsName (Bytes.ofString (name ++ ".tar.gz")) := by decide

theorem length_packed_le : ∀ name ∈ packedNames, (Bytes.ofString name).length ≤ Route.nameLimit ∧
    (Bytes.ofString (name ++ ".tar.gz")).length ≤ Route.nameLimit := by decide

/-- No directory is packed into a tarball that has its name. -/
theorem packed_ne_tarball : ∀ name ∈ packedNames, ∀ other ∈ packedNames,
    Bytes.ofString name ≠ Bytes.ofString (other ++ ".tar.gz") := by decide

/-- No two directories are packed into one tarball. -/
theorem tarball_ne_tarball : ∀ name ∈ packedNames, ∀ other ∈ packedNames, name ≠ other →
    Bytes.ofString (name ++ ".tar.gz") ≠ Bytes.ofString (other ++ ".tar.gz") := by decide

end Layout

/-! ## What stops a tarball -/

namespace Archive

/-- Nothing stops parts of which none is stopped. -/
theorem Packed.failure_all_iff {parts : List Packed} :
    (Packed.all parts).failure = none ↔ ∀ part ∈ parts, part.failure = none := by
  refine ⟨fun h => (Packed.all_eq h).1, fun h => ?_⟩
  induction parts with
  | nil => rfl
  | cons first rest ih =>
    obtain ⟨hfirst, hrest⟩ := List.forall_mem_cons.1 h
    exact (Packed.failure_followedBy hfirst _).trans (ih hrest)

theorem tooLong_eq_false {path : Bytes} : tooLong path = false ↔ path.length < Route.lengthLimit := by
  simp [tooLong]

theorem openable_file {path : Bytes} {content : Content} {executable : Bool} :
    Openable path (.file content executable) ↔ path.length < Route.lengthLimit := by
  refine ⟨fun h => h [] (by simp), fun hshort p hp => ?_⟩
  cases p with
  | nil => exact hshort
  | cons _ _ => exact absurd rfl hp

theorem openable_dir {path : Bytes} {entries : Listing Node} (hsorted : Listing.Sorted entries) :
    Openable path (.dir entries) ↔
      path.length < Route.lengthLimit ∧ ∀ entry ∈ entries, Openable (entryPath path entry.1) entry.2 := by
  constructor
  · intro h
    exact ⟨h [] (by simp), fun entry hentry => h.child (Listing.find?_of_mem hsorted hentry)⟩
  · rintro ⟨hshort, hentries⟩ p hp
    cases p with
    | nil => exact hshort
    | cons first rest =>
      rw [look_dir_cons] at hp
      obtain ⟨seen, hseen⟩ := Option.ne_none_iff_exists'.1 hp
      obtain ⟨child, hchild, hrest⟩ := Option.bind_eq_some_iff.1 hseen
      exact hentries _ (Listing.mem_of_find? hchild) rest (by simp [hrest])

/-- Adding a tree without links to a tarball stops at a path that is too long, and at nothing else. -/
theorem tarNodeWith_failure_iff {order : Listing.Order} {jump : Bytes → Bytes → Node → Packed} {s : Store}
    {name path : Bytes} {n : Node} (hn : n.Plain) :
    (tarNodeWith order jump s name path n).failure = none ↔ Openable path n := by
  have hwellFormed := hn.wellFormed
  -- on the tree; the order only rearranges the entries, so the same paths are opened in it
  induction hwellFormed generalizing name path with
  | file content executable =>
    rw [tarNodeWith, openable_file, ← tooLong_eq_false]
    cases tooLong path <;> simp [Packed.one]
  | link target => exact absurd rfl (hn.linkFree [] target)
  | @dir entries hsorted _ _ ih =>
    rw [tarNodeWith, openable_dir hsorted, ← tooLong_eq_false]
    cases tooLong path with
    | true => simp
    | false =>
      have harranged := Listing.inOrder_perm hsorted (order.perm path (Listing.names entries))
      have hchild (entry : Name × Node) (hentry : entry ∈ entries) :
          (tarNodeWith order jump s (memberName name entry.1) (entryPath path entry.1) entry.2).failure = none ↔
            Openable (entryPath path entry.1) entry.2 :=
        ih entry hentry (hn.plain_of_mem entry hentry).2
      simp only [Bool.false_eq_true, if_false, true_and, tarEntriesWith_eq, Listing.inOrder_map, List.map_map,
        Function.comp_def]
      rw [Packed.failure_followedBy rfl, Packed.failure_all_iff, List.forall_mem_map]
      refine forall_congr' fun entry => ?_
      rw [harranged.mem_iff]
      exact imp_congr_right (hchild entry)

theorem tarNode_failure_iff {order : Listing.Order} {s : Store} {hops : Nat} {name path : Bytes} {n : Node}
    (hn : n.Plain) : (tarNode order s hops name path n).failure = none ↔ Openable path n := by
  cases hops with
  | zero => exact tarNodeWith_failure_iff hn
  | succ hops => exact tarNodeWith_failure_iff hn

/-! ## One tarball -/

variable {order : Listing.Order} {s t : Store} {root : Path} {name : String}

/-- Packing a directory into its tarball beside it writes the tarball, also when something cannot be added. -/
theorem createTarball_of_finds (order : Listing.Order) (hs : s.top.LinkFree) (hname : name ∈ Layout.packedNames)
    {d : List Name} (hfrom : s.Finds root name d) (hto : s.Finds root (name ++ ".tar.gz") d)
    {entries : List (Name × Node)} (hentries : s.top.get? (d ++ [Bytes.ofString name]) = some (.dir entries))
    (hfree : s.top.look (Layout.tarballAt d name) ≠ some .dir) :
    ∃ opened : Store,
      let packed := tarNode order opened (Store.linkLimit + 1) (Bytes.ofString name) (root / name).bytes (.dir entries)
      createTarball order (root / name) (tarballPath root name) s =
        (match packed.failure with
          | some failure => .error failure
          | none => .ok (),
        s.put d (Bytes.ofString (name ++ ".tar.gz")) (.file (.archive .tarball packed.members)
          (Files.executableOf (s.top.get? (Layout.tarballAt d name))))) := by
  obtain ⟨hsource, hfile⟩ := Layout.isName_packed name hname
  obtain ⟨hfromShort, htoShort⟩ := Layout.length_packed_le name hname
  have hdir := Store.isDir_of_look hsource hfrom hfromShort (look_eq_dir.2 ⟨entries, hentries⟩)
  have hrequire : Work.require (·.isDir (root / name).bytes) (.missingInput (root / name)) s = (.ok (), s) :=
    require_eq_ok.2 ⟨hdir, rfl⟩
  have hempty := ofFiles_eq_ok.2 (Files.emptyFile_of_finds hfile hto htoShort (fun target => hs _ target) hfree)
  obtain ⟨executable, hexecutable⟩ : ∃ executable, executable =
      Files.executableOf (s.top.get? (Layout.tarballAt d name)) := ⟨_, rfl⟩
  rw [← Layout.tarballAt, ← hexecutable] at hempty
  have hfill (old new : Content) : (s.put d (Bytes.ofString (name ++ ".tar.gz")) (.file old executable)).fill
      (Layout.tarballAt d name) new = s.put d (Bytes.ofString (name ++ ".tar.gz")) (.file new executable) :=
    Store.fill_put hto.reaches.dir _ _ _ _
  obtain ⟨opened, hopened⟩ : ∃ opened, opened =
      s.put d (Bytes.ofString (name ++ ".tar.gz")) (.file .unfinished executable) := ⟨_, rfl⟩
  have hseen : opened.nodeAt true (root / name).bytes = .ok (.dir entries) := by
    rw [hopened]
    exact Store.nodeAt_put_beside hsource hfromShort hfrom (Layout.packed_ne_tarball name hname name hname) hentries
      (fun target => hs _ target) hfree true .unfinished executable
  refine ⟨opened, ?_⟩
  rw [createTarball, bind_of_ok _ hrequire, ← hexecutable]
  simp only [Path.lastName?_div hsource, tarballPath]
  rw [bind_of_ok _ hempty]
  simp only [run_bind, run_get, run_modify, whileWriting, hfill, ← hopened, hseen]
  cases (tarNode order opened (Store.linkLimit + 1) (Bytes.ofString name) (root / name).bytes
    (.dir entries)).failure <;> rfl

/-- Everything is there to pack a directory under a root into its tarball: both can be found, no directory stands in
the tarball's place, and no path in the directory is too long. -/
structure Packable (s : Store) (root : Path) (name : String) (entries : List (Name × Node)) : Prop where
  source : s.Finds root name (s.spelled root)
  output : s.Finds root (name ++ ".tar.gz") (s.spelled root)
  stands : s.top.get? (s.spelled root ++ [Bytes.ofString name]) = some (.dir entries)
  free : s.top.look (Layout.tarballAt (s.spelled root) name) ≠ some .dir
  openable : Openable (root / name).bytes (.dir entries)

/-- A directory that can be packed is packed, in any order of its entries. -/
theorem createTarball_of_packable (order : Listing.Order) (hs : s.top.Plain) (hname : name ∈ Layout.packedNames)
    {entries : List (Name × Node)} (h : Packable s root name entries) :
    ∃ members, unpack members = .dir [(Bytes.ofString name, (Node.dir entries).withoutModes)] ∧
      createTarball order (root / name) (tarballPath root name) s =
        (.ok (), s.put (s.spelled root) (Bytes.ofString (name ++ ".tar.gz")) (.file (.archive .tarball members)
          (Files.executableOf (s.top.get? (Layout.tarballAt (s.spelled root) name))))) := by
  obtain ⟨hsource, -⟩ := Layout.isName_packed name hname
  have hplain : (Node.dir entries).Plain := hs.get? h.stands
  obtain ⟨opened, hrun⟩ := createTarball_of_finds order hs.linkFree hname h.source h.output h.stands h.free
  have hwhole : (tarNode order opened (Store.linkLimit + 1) (Bytes.ofString name) (root / name).bytes
      (.dir entries)).failure = none := (tarNode_failure_iff hplain).2 h.openable
  simp only [hwhole] at hrun
  exact ⟨_, unpack_tarNode (memberPlace_of_isName hsource) hplain hwhole, hrun⟩

/-- A directory that was packed could be packed. -/
theorem packable_of_createTarball (hs : s.top.Plain) (hname : name ∈ Layout.packedNames) {a : Unit}
    (h : createTarball order (root / name) (tarballPath root name) s = (.ok a, t)) :
    ∃ entries, Packable s root name entries := by
  obtain ⟨hsource, hfile⟩ := Layout.isName_packed name hname
  -- the run is read twice: up to the opening of the tarball for the places, and as a whole for the paths
  have hrun := h
  obtain ⟨_, s₁, hrequire, h⟩ := bind_eq_ok.1 h
  obtain ⟨hdir, rfl⟩ := require_eq_ok.1 hrequire
  obtain ⟨hfrom, -, hlook⟩ := Store.finds_of_isDir hsource hs.linkFree hdir
  obtain ⟨entries, hentries⟩ := look_eq_dir.1 hlook
  simp only [Path.lastName?_div hsource] at h
  obtain ⟨place, emptied, hempty, -⟩ := bind_eq_ok.1 h
  rw [ofFiles_eq_ok, tarballPath] at hempty
  obtain ⟨fault, hfault⟩ | ⟨d, hto, -, hfree, -⟩ := Files.emptyFile_finds (p := root) hs.linkFree hfile
  · rw [hfault] at hempty
    cases (outcome_inj.1 hempty).1
  obtain rfl := hto.reaches.eq_spelled hs.linkFree
  refine ⟨entries, hfrom, hto, hentries, hfree, ?_⟩
  obtain ⟨opened, hends⟩ := createTarball_of_finds order hs.linkFree hname hfrom hto hentries hfree
  rw [hrun] at hends
  suffices hwhole : (tarNode order opened (Store.linkLimit + 1) (Bytes.ofString name) (root / name).bytes
      (.dir entries)).failure = none from (tarNode_failure_iff (hs.get? hentries)).1 hwhole
  cases hfailure : (tarNode order opened (Store.linkLimit + 1) (Bytes.ofString name) (root / name).bytes
      (.dir entries)).failure with
  | some failure =>
    simp only [hfailure] at hends
    cases (outcome_inj.1 hends).1
  | none => rfl

end Archive

/-! ## The tarballs of the outputs -/

/-- A directory under the root has its tarball, which unpacks to the directory as it stands, under its name. -/
def Store.HasTarball (s : Store) (d : List Name) (name : String) : Prop :=
  ∃ entries members executable,
    s.top.get? (d ++ [Bytes.ofString name]) = some (.dir entries) ∧
    s.top.look (Layout.tarballAt d name) = some (.file (.archive .tarball members) executable) ∧
    Archive.unpack members = .dir [(Bytes.ofString name, (Node.dir entries).withoutModes)]

namespace Archive

variable {order : Listing.Order} {s t : Store} {root : Path} {name : String}

/-- A tarball that was packed stands beside its directory, and nothing else was touched. -/
theorem createTarball_packs (hs : s.top.Plain) (hname : name ∈ Layout.packedNames) {a : Unit}
    (h : createTarball order (root / name) (tarballPath root name) s = (.ok a, t)) :
    t.Reaches root (s.spelled root) ∧ s.AltersIn (· = Layout.tarballAt (s.spelled root) name) t ∧
      t.HasTarball (s.spelled root) name := by
  obtain ⟨-, hfile⟩ := Layout.isName_packed name hname
  have hne := Layout.packed_ne_tarball name hname name hname
  obtain ⟨entries, hpackable⟩ := packable_of_createTarball hs hname h
  obtain ⟨members, hunpacked, hrun⟩ := createTarball_of_packable order hs hname hpackable
  obtain ⟨-, rfl⟩ := outcome_inj.1 (hrun.symm.trans h)
  have hreaches := hpackable.source.reaches
  have hdir := hreaches.dir
  have hput := ChangesIn.put_here hs hfile (.file (.archive .tarball members)
    (Files.executableOf (s.top.get? (Layout.tarballAt (s.spelled root) name)))) hdir hpackable.free fun _ _ => rfl
  refine ⟨hreaches.keeps (.put hpackable.free (fun target => hs.linkFree _ target) _) rfl, ⟨rfl, hput⟩, entries,
    members, _, ?_, look_put hdir _ _ [], hunpacked⟩
  rw [← hpackable.stands]
  refine hput.get?_eq hs ?_
  rintro p hp rfl
  exact hne (entry_isPrefix_iff.1 hp)

end Archive

/-- A tarball and its directory stay as long as only another tarball is written. -/
theorem Store.HasTarball.after {s t : Store} {d : List Name} {name : String} (h : s.HasTarball d name)
    (hs : s.top.Plain) (hname : name ∈ Layout.packedNames)
    (halters : s.AltersIn (fun p => ∃ other ∈ Layout.packedNames, other ≠ name ∧ p = Layout.tarballAt d other) t) :
    t.HasTarball d name := by
  obtain ⟨entries, members, executable, hentries, htarball, hunpacked⟩ := h
  refine ⟨entries, members, executable, ?_, ?_, hunpacked⟩
  · rw [← hentries]
    refine halters.changes.get?_eq hs ?_
    rintro p hp ⟨other, hother, -, rfl⟩
    exact Layout.packed_ne_tarball name hname other hother (entry_isPrefix_iff.1 hp)
  · rw [← htarball]
    refine halters.look ?_
    rintro ⟨other, hother, hne, heq⟩
    exact Layout.tarball_ne_tarball other hother name hname hne
      (List.singleton_inj.1 (List.append_cancel_left heq)).symm

namespace Archive

variable {order : Listing.Order} {s t : Store} {root : Path}

/-- Directories that were packed one after the other have their tarballs, and nothing else was touched. -/
theorem tarballs_pack {names : List String} (hnames : ∀ name ∈ names, name ∈ Layout.packedNames)
    (hnodup : names.Nodup) {d : List Name} (hs : s.top.Plain) (hd : s.spelled root = d) {paths : List Path}
    (h : tarballs order root names s = (.ok paths, t)) :
    paths = names.map (tarballPath root) ∧ (names ≠ [] → t.Reaches root d) ∧
      s.AltersIn (fun p => ∃ name ∈ names, p = Layout.tarballAt d name) t ∧ ∀ name ∈ names, t.HasTarball d name := by
  -- on the names: a tarball outlives the packing of the others, since none of them has its name
  induction names generalizing s paths with
  | nil =>
    obtain ⟨hpaths, rfl⟩ := outcome_inj.1 h
    exact ⟨(Except.ok.inj hpaths).symm, fun hne => absurd rfl hne, .refl hs, nofun⟩
  | cons name rest ih =>
    subst hd
    obtain ⟨_, u, hfirst, h⟩ := bind_eq_ok.1 h
    obtain ⟨later, v, hrest, h⟩ := bind_eq_ok.1 h
    obtain ⟨hpaths, rfl⟩ := outcome_inj.1 h
    obtain rfl := Except.ok.inj hpaths
    have hname := hnames name List.mem_cons_self
    obtain ⟨hnotMem, hnodup⟩ := List.nodup_cons.1 hnodup
    obtain ⟨hreaches, halters, htarball⟩ := createTarball_packs hs hname hfirst
    have hrestNames : ∀ other ∈ rest, other ∈ Layout.packedNames := fun other hother =>
      hnames other (List.mem_cons_of_mem _ hother)
    obtain ⟨rfl, hlast, halters', htarballs⟩ := ih hrestNames hnodup halters.plain (halters.spelled root) hrest
    have hall := (halters.mono (Q := fun p => ∃ other ∈ name :: rest, p = Layout.tarballAt (s.spelled root) other)
      fun p hp => ⟨name, List.mem_cons_self, hp⟩).trans (halters'.mono fun p ⟨other, hother, hp⟩ =>
        ⟨other, List.mem_cons_of_mem _ hother, hp⟩)
    refine ⟨rfl, fun _ => ?_, hall, ?_⟩
    · cases rest with
      | nil =>
        obtain ⟨-, rfl⟩ := outcome_inj.1 hrest
        exact hreaches
      | cons next more => exact hlast (List.cons_ne_nil _ _)
    · intro other hother
      rcases List.mem_cons.1 hother with rfl | hlater
      · refine htarball.after halters.plain hname (halters'.mono ?_)
        rintro p ⟨another, hanother, hp⟩
        exact ⟨another, hrestNames another hanother, fun heq => hnotMem (heq ▸ hanother), hp⟩
      · exact htarballs other hlater

end Archive

/-! ## Packing in another order -/

/-- Two stores differ in tarballs of directories under the root at most, and these unpack to the same trees. -/
structure Store.Repacked (d : List Name) (s t : Store) : Prop where
  cwd : t.cwd = s.cwd
  look : ∀ p, t.top.look p = s.top.look p ∨
    (∃ name ∈ Layout.packedNames, p = Layout.tarballAt d name) ∧ ∃ members members' executable,
      s.top.look p = some (.file (.archive .tarball members) executable) ∧
      t.top.look p = some (.file (.archive .tarball members') executable) ∧
      Archive.unpack members' = Archive.unpack members

namespace Store.Repacked

variable {d : List Name} {s t : Store} {root : Path} {name : String}

theorem refl (d : List Name) (s : Store) : Repacked d s s := ⟨rfl, fun _ => .inl rfl⟩

theorem alters (h : Repacked d s t) (ht : t.top.Plain) :
    s.AltersIn (fun p => ∃ name ∈ Layout.packedNames, p = Layout.tarballAt d name) t :=
  ⟨h.cwd, ht, fun p hp => (h.look p).resolve_right fun ⟨hat, _⟩ => hp hat⟩

/-- A directory is one in both stores. -/
theorem look_dir_iff (h : Repacked d s t) {p : List Name} : t.top.look p = some .dir ↔ s.top.look p = some .dir := by
  obtain heq | ⟨-, members, members', executable, hfile, hfile', -⟩ := h.look p
  · rw [heq]
  · simp [hfile, hfile']

/-- The permission of a file is the same in both stores. -/
theorem executableOf (h : Repacked d s t) (p : List Name) :
    Files.executableOf (t.top.get? p) = Files.executableOf (s.top.get? p) := by
  obtain heq | ⟨-, members, members', executable, hfile, hfile', -⟩ := h.look p
  · rw [Node.look, Node.look] at heq
    cases hs : s.top.get? p with
    | none =>
      rw [hs] at heq
      rw [Option.map_eq_none_iff.1 heq]
    | some n =>
      cases ht : t.top.get? p with
      | none => simp [hs, ht] at heq
      | some m =>
        rw [hs, ht] at heq
        cases n <;> cases m <;> simp_all [Node.sight, Files.executableOf]
  · rw [look_eq_file.1 hfile, look_eq_file.1 hfile']
    rfl

/-- What can be packed in one store can be packed in the other. -/
theorem packable (h : Repacked (s.spelled root) s t) (hs : s.top.Plain) (ht : t.top.Plain)
    (hname : name ∈ Layout.packedNames) {entries : List (Name × Node)}
    (hpackable : Archive.Packable s root name entries) :
    Archive.Packable t root name entries := by
  have hspelled : t.spelled root = s.spelled root := Store.spelled_congr h.cwd root
  have hways : s.top.KeepsWays t.top :=
    ⟨fun _ hp => h.look_dir_iff.2 hp, fun p target hp => absurd hp (hs.linkFree p target)⟩
  constructor
  case source => exact hspelled ▸ hpackable.source.keeps hways h.cwd
  case output => exact hspelled ▸ hpackable.output.keeps hways h.cwd
  case stands =>
    rw [hspelled, ← hpackable.stands]
    refine (h.alters ht).changes.get?_eq hs ?_
    rintro p hp ⟨other, hother, rfl⟩
    exact Layout.packed_ne_tarball name hname other hother (entry_isPrefix_iff.1 hp)
  case free => rw [hspelled, Ne, h.look_dir_iff]; exact hpackable.free
  case openable => exact hpackable.openable

/-- Tarballs that unpack to the same tree may come to one place in both stores. -/
theorem put (h : Repacked d s t) (hdir : s.top.look d = some .dir) (hname : name ∈ Layout.packedNames)
    {members members' : List Member} (hunpacked : Archive.unpack members' = Archive.unpack members)
    (executable : Bool) :
    Repacked d (s.put d (Bytes.ofString (name ++ ".tar.gz")) (.file (.archive .tarball members) executable))
      (t.put d (Bytes.ofString (name ++ ".tar.gz")) (.file (.archive .tarball members') executable)) where
  cwd := h.cwd
  look p := by
    rw [Store.top_put, Store.top_put]
    -- the new tarballs, below them, where nothing is found, and every other place
    by_cases hat : Layout.tarballAt d name <+: p
    · obtain ⟨rest, rfl⟩ := hat
      rw [Layout.tarballAt, List.append_assoc, List.singleton_append, look_put hdir, look_put (h.look_dir_iff.2 hdir)]
      cases rest with
      | nil => exact .inr ⟨⟨name, hname, rfl⟩, members, members', executable, rfl, rfl, hunpacked⟩
      | cons _ _ => exact .inl rfl
    · rw [look_put_elsewhere _ _ hat, look_put_elsewhere _ _ hat]
      exact h.look p

end Store.Repacked

namespace Archive

variable {order : Listing.Order} {s t u : Store} {root : Path} {name : String}

/-- What was packed once is packed in any order of the entries, and comes to the same tree. -/
theorem createTarball_repacks (order' : Listing.Order) (hs : s.top.Plain) (hu : u.top.Plain)
    (hsame : s.Repacked (s.spelled root) u) (hname : name ∈ Layout.packedNames) {a : Unit}
    (h : createTarball order (root / name) (tarballPath root name) s = (.ok a, t)) :
    ∃ v, createTarball order' (root / name) (tarballPath root name) u = (.ok (), v) ∧
      t.Repacked (s.spelled root) v := by
  obtain ⟨entries, hpackable⟩ := packable_of_createTarball hs hname h
  have hpackable' := hsame.packable hs hu hname hpackable
  obtain ⟨members, hunpacked, hrun⟩ := createTarball_of_packable order hs hname hpackable
  obtain ⟨members', hunpacked', hrun'⟩ := createTarball_of_packable order' hu hname hpackable'
  obtain ⟨-, rfl⟩ := outcome_inj.1 (hrun.symm.trans h)
  rw [Store.spelled_congr hsame.cwd, hsame.executableOf] at hrun'
  exact ⟨_, hrun', hsame.put hpackable.source.reaches.dir hname (hunpacked'.trans hunpacked.symm) _⟩

/-- Directories that were packed in one order are packed in any other one, and come to the same trees. -/
theorem tarballs_repack (order' : Listing.Order) {names : List String}
    (hnames : ∀ name ∈ names, name ∈ Layout.packedNames) {d : List Name} (hs : s.top.Plain) (hu : u.top.Plain)
    (hd : s.spelled root = d) (hsame : s.Repacked d u) {paths : List Path}
    (h : tarballs order root names s = (.ok paths, t)) :
    ∃ v, tarballs order' root names u = (.ok paths, v) ∧ t.Repacked d v := by
  -- on the names: the next directory is packed where this one was, in both orders
  induction names generalizing s u paths with
  | nil =>
    obtain ⟨hpaths, rfl⟩ := outcome_inj.1 h
    obtain rfl := Except.ok.inj hpaths
    exact ⟨u, rfl, hsame⟩
  | cons name rest ih =>
    subst hd
    obtain ⟨_, w, hfirst, h⟩ := bind_eq_ok.1 h
    obtain ⟨later, x, hrest, h⟩ := bind_eq_ok.1 h
    obtain ⟨hpaths, rfl⟩ := outcome_inj.1 h
    obtain rfl := Except.ok.inj hpaths
    have hname := hnames name List.mem_cons_self
    obtain ⟨-, halters, -⟩ := createTarball_packs hs hname hfirst
    obtain ⟨w', hfirst', hsame'⟩ := createTarball_repacks order' hs hu hsame hname hfirst
    obtain ⟨-, halters', -⟩ := createTarball_packs hu hname hfirst'
    obtain ⟨v, hrest', hfinal⟩ := ih (fun other hother => hnames other (List.mem_cons_of_mem _ hother)) halters.plain
      halters'.plain (halters.spelled root) hsame' hrest
    refine ⟨v, ?_, hfinal⟩
    rw [tarballs, bind_of_ok _ hfirst', bind_of_ok _ hrest']
    rfl

end Archive

end StubRelease
