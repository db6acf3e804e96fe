/-
# StubRelease.Proofs.Tree.Ways -- walking a tree without links

Without links a walk ends where its hops say, as long as it passes directories only. `Passable` says that
it does, and `Store.Names` that a path names an entry of an existing directory in a form the operating
system accepts. Main statements: a path that names an entry finds what stands there (`nodeAt_of_names`),
any other finds nothing (`nodeAt_div_eq_ok`), and a path goes on naming its entry as long as no
directory is taken away (`Names.mono`).
-/
import StubRelease.Proofs.Tree.Reach

namespace StubRelease

open Route (hopsOf)

namespace Node

/-- Every place on a way is a directory, the last one included. -/
def Passable (top : Node) : List Name → List Hop → Prop
  | place, [] => top.look place = some .dir
  | place, hop :: rest => top.look place = some .dir ∧ hop.Short ∧ top.Passable (hop.move place) rest

namespace Passable

variable {top : Node} {place : List Name}

theorem start {hops : List Hop} (h : top.Passable place hops) : top.look place = some .dir := by
  cases hops with
  | nil => exact h
  | cons hop rest => exact h.1

theorem last {hops : List Hop} (h : top.Passable place hops) :
    top.look (hops.foldl Hop.move place) = some .dir := by
  induction hops generalizing place with
  | nil => exact h
  | cons hop rest ih => exact ih h.2.2

theorem append_iff {pre suf : List Hop} : top.Passable place (pre ++ suf) ↔
    top.Passable place pre ∧ top.Passable (pre.foldl Hop.move place) suf := by
  induction pre generalizing place with
  | nil =>
    constructor
    · intro h
      exact ⟨h.start, h⟩
    · intro h
      exact h.2
  | cons hop rest ih =>
    simp only [List.cons_append, Passable, List.foldl_cons, ih, and_assoc]

/-- A way stays passable as long as directories stay directories. -/
theorem mono {other : Node} (hdirs : ∀ p, top.look p = some .dir → other.look p = some .dir)
    {hops : List Hop} (h : top.Passable place hops) : other.Passable place hops := by
  induction hops generalizing place with
  | nil => exact hdirs place h
  | cons hop rest ih => exact ⟨hdirs place h.1, h.2.1, ih h.2.2⟩

end Passable

end Node

namespace Store

variable {top : Node} {place : List Name}

/-! ## Walks -/

/-- A passable way is walked as it is. -/
theorem walkWith_of_passable {jump : List Name → List Hop → Except Errno Spot} {follow : Bool}
    {hops : List Hop} (h : top.Passable place hops) :
    walkWith jump top follow place hops = .ok (.taken (hops.foldl Hop.move place)) := by
  induction hops generalizing place with
  | nil => rfl
  | cons hop rest ih =>
    obtain ⟨hplace, hshort, hrest⟩ := h
    have hdirect : hop.Direct top place := by
      refine ⟨hshort, ?_⟩
      rintro name rfl
      have hdir : top.look (place ++ [name]) = some .dir := hrest.start
      simp [hdir]
    rw [walkWith_direct hplace hdirect]
    exact ih hrest

/-- What the first hop of a walk that does not fail has done in a tree without links. -/
theorem walkWith_cons_of_linkFree {jump : List Name → List Hop → Except Errno Spot} {follow : Bool}
    {hop : Hop} {rest : List Hop} {spot : Spot} (hfree : top.LinkFree)
    (h : walkWith jump top follow place (hop :: rest) = .ok spot) :
    top.look place = some .dir ∧ hop.Short ∧
      (walkWith jump top follow (hop.move place) rest = .ok spot ∨
        rest = [] ∧ ∃ name, hop = .into name ∧ spot = .free place name) := by
  obtain ⟨hplace, hshort, ⟨-, hnext⟩ | ⟨name, hhop, -, hnil, hspot⟩ | ⟨name, target, -, hlink⟩⟩ :=
    walkWith_cons h
  · exact ⟨hplace, hshort, .inl hnext⟩
  · exact ⟨hplace, hshort, .inr ⟨hnil, name, hhop, hspot⟩⟩
  · exact absurd hlink (hfree _ target)

/-- What a walk to a directory has passed. -/
theorem passable_of_walkWith {jump : List Name → List Hop → Except Errno Spot} {follow : Bool}
    {hops : List Hop} {goal : List Name} (hfree : top.LinkFree)
    (h : walkWith jump top follow place hops = .ok (.taken goal)) (hgoal : top.look goal = some .dir) :
    top.Passable place hops ∧ goal = hops.foldl Hop.move place := by
  induction hops generalizing place with
  | nil =>
    rw [walkWith] at h
    cases h
    exact ⟨hgoal, rfl⟩
  | cons hop rest ih =>
    obtain ⟨hplace, hshort, hnext | ⟨-, name, -, hspot⟩⟩ := walkWith_cons_of_linkFree hfree h
    · obtain ⟨hpass, hmove⟩ := ih hnext
      exact ⟨⟨hplace, hshort, hpass⟩, hmove⟩
    · cases hspot

/-- What a walk has passed before its last name. -/
theorem passable_of_walkWith_name {jump : List Name → List Hop → Except Errno Spot} {follow : Bool}
    {pre : List Hop} {name : Name} {spot : Spot} (hfree : top.LinkFree)
    (h : walkWith jump top follow place (pre ++ [.into name]) = .ok spot) :
    top.Passable place pre ∧ name.length ≤ Route.nameLimit := by
  induction pre generalizing place with
  | nil =>
    obtain ⟨hplace, hshort, -⟩ := walkWith_cons_of_linkFree hfree h
    exact ⟨hplace, hshort⟩
  | cons hop rest ih =>
    obtain ⟨hplace, hshort, hnext | ⟨hnil, -⟩⟩ := walkWith_cons_of_linkFree hfree h
    · obtain ⟨hpass, hname⟩ := ih hnext
      exact ⟨⟨hplace, hshort, hpass⟩, hname⟩
    · simp at hnil

end Store

/-! ## Paths -/

/-- The place a path spells. -/
def Path.place (p : Path) : List Name := (hopsOf p.bytes).foldl Hop.move []

theorem Path.place_div {p : Path} {text : String} (hname : IsName (Bytes.ofString text)) :
    (p / text).place = p.place ++ [Bytes.ofString text] := by
  rw [Path.place, Path.hopsOf_div hname, List.foldl_append]
  rfl

namespace Store

/-- An absolute path that leads to a directory. -/
structure Opens (s : Store) (p : Path) : Prop where
  absolute : p.isAbsolute = true
  no_nul : (0 : UInt8) ∉ p.bytes
  passable : s.top.Passable [] (hopsOf p.bytes)

/-- A path of an entry names it: its directory exists, and neither the path nor the name is too long. -/
structure Names (s : Store) (p : Path) (text : String) : Prop where
  opens : s.Opens p
  fits : (p / text).bytes.length < Route.lengthLimit
  short : (Bytes.ofString text).length ≤ Route.nameLimit

variable {s t : Store} {p : Path} {text : String}

theorem Opens.look_place (h : s.Opens p) : s.top.look p.place = some .dir := h.passable.last

/-- A path goes on leading to its directory as long as directories stay directories. -/
theorem Opens.mono (hdirs : ∀ place, s.top.look place = some .dir → t.top.look place = some .dir)
    (h : s.Opens p) : t.Opens p :=
  ⟨h.absolute, h.no_nul, h.passable.mono hdirs⟩

theorem Names.mono (hdirs : ∀ place, s.top.look place = some .dir → t.top.look place = some .dir)
    (h : s.Names p text) : t.Names p text :=
  ⟨h.opens.mono hdirs, h.fits, h.short⟩

/-- A path of an entry leads to it if the entry is a directory. -/
theorem opens_div (hname : IsName (Bytes.ofString text)) (hp : p.isAbsolute = true) :
    s.Opens (p / text) ↔ s.Opens p ∧ (Bytes.ofString text).length ≤ Route.nameLimit ∧
      s.top.look (p.place ++ [Bytes.ofString text]) = some .dir := by
  have hhops := Path.hopsOf_div (p := p) hname
  constructor
  · rintro ⟨-, hnul, hpass⟩
    rw [hhops, Node.Passable.append_iff] at hpass
    rw [Path.mem_bytes_div hname] at hnul
    exact ⟨⟨hp, hnul, hpass.1⟩, hpass.2.2.1, hpass.2.2.2⟩
  · rintro ⟨hopens, hshort, hdir⟩
    refine ⟨Path.isAbsolute_div text hp, ?_, ?_⟩
    · rw [Path.mem_bytes_div hname]
      exact hopens.no_nul
    · rw [hhops, Node.Passable.append_iff]
      exact ⟨hopens.passable, hopens.look_place, hshort, hdir⟩

/-- A path that opens leads to the place it spells. -/
theorem Opens.reaches (h : s.Opens p) : s.Reaches p p.place := by
  have habs : (Route.ofBytes p.bytes).absolute = true := by simp [Route.ofBytes, Path.head_bytes h.absolute]
  refine ⟨?_, h.look_place⟩
  rw [origin, habs]
  exact walkWith_of_passable h.passable

/-- In a tree without links a path leads to the place it spells or nowhere. -/
theorem opens_of_reaches (hfree : s.top.LinkFree) (hp : p.isAbsolute = true)
    (hnul : (0 : UInt8) ∉ p.bytes) {d : List Name} (h : s.Reaches p d) : s.Opens p ∧ d = p.place := by
  have habs : (Route.ofBytes p.bytes).absolute = true := by simp [Route.ofBytes, Path.head_bytes hp]
  obtain ⟨hwalk, hdir⟩ := h
  rw [origin, habs] at hwalk
  obtain ⟨hpass, rfl⟩ := passable_of_walkWith hfree hwalk hdir
  exact ⟨⟨hp, hnul, hpass⟩, rfl⟩

theorem Names.finds (h : s.Names p text) : s.Finds p text p.place :=
  ⟨h.opens.reaches, h.opens.no_nul, h.fits⟩

/-- An absolute path of an entry that is found names the entry. -/
theorem Finds.names (hfree : s.top.LinkFree) (hp : p.isAbsolute = true) {d : List Name} (h : s.Finds p text d)
    (hshort : (Bytes.ofString text).length ≤ Route.nameLimit) : s.Names p text ∧ d = p.place := by
  obtain ⟨hopens, hd⟩ := opens_of_reaches hfree hp h.no_nul h.reaches
  exact ⟨⟨hopens, h.fits, hshort⟩, hd⟩

/-! ## Seen from the current directory -/

/-- The place a path spells, seen from the current directory. In a tree without links the path leads there
or nowhere. -/
def spelled (s : Store) (p : Path) : List Name :=
  (hopsOf p.bytes).foldl Hop.move (s.origin (Route.ofBytes p.bytes))

theorem spelled_of_isAbsolute (hp : p.isAbsolute = true) : s.spelled p = p.place := by
  have habs : (Route.ofBytes p.bytes).absolute = true := by simp [Route.ofBytes, Path.head_bytes hp]
  rw [spelled, origin, habs]
  rfl

/-- What a path spells depends on the current directory only. -/
theorem spelled_congr (hcwd : t.cwd = s.cwd) (p : Path) : t.spelled p = s.spelled p := by
  rw [spelled, spelled, origin, origin, hcwd]

theorem spelled_div (hname : IsName (Bytes.ofString text)) :
    s.spelled (p / text) = s.spelled p ++ [Bytes.ofString text] := by
  have hroute := Route.ofBytes_div (p := p) hname
  rw [spelled, spelled, Path.hopsOf_div hname, List.foldl_append, origin, origin, hroute]
  rfl

theorem Reaches.eq_spelled (hfree : s.top.LinkFree) {d : List Name} (h : s.Reaches p d) : d = s.spelled p :=
  (passable_of_walkWith hfree h.walk h.dir).2

/-! ## Reading a path of an entry -/

variable (hname : IsName (Bytes.ofString text))

include hname

theorem locate_of_names (hfree : s.top.LinkFree) (toTarget : Bool) (h : s.Names p text) :
    s.locate toTarget (p / text).bytes =
      .ok (if (s.top.look (p.place ++ [Bytes.ofString text])).isSome
        then .taken (p.place ++ [Bytes.ofString text]) else .free p.place (Bytes.ofString text)) :=
  locate_div hname h.finds h.short fun _ target => hfree _ target

theorem placeOf_of_names (hfree : s.top.LinkFree) (toTarget : Bool) (h : s.Names p text)
    (hstands : s.top.look (p.place ++ [Bytes.ofString text]) ≠ none) :
    s.placeOf toTarget (p / text).bytes = .ok (p.place ++ [Bytes.ofString text]) := by
  rw [placeOf, locate_of_names hname hfree toTarget h, if_pos (Option.isSome_iff_ne_none.2 hstands)]

/-- A path of an entry leads nowhere unless the directory above is where the path spells it. -/
theorem finds_of_locate (hfree : s.top.LinkFree) {toTarget : Bool} {spot : Spot}
    (h : s.locate toTarget (p / text).bytes = .ok spot) :
    s.Finds p text (s.spelled p) ∧ (Bytes.ofString text).length ≤ Route.nameLimit := by
  rw [locate] at h
  cases hread : Route.read (p / text).bytes with
  | error fault =>
    rw [hread] at h
    cases h
  | ok r =>
    obtain ⟨hnul, hfits, rfl⟩ := read_div_eq_ok hname hread
    rw [hread, Route.ofBytes_div hname] at h
    simp only [follow, Route.allHops, Bool.false_eq_true, if_false] at h
    cases hwalk : walk s.top toTarget linkLimit (s.origin (Route.ofBytes p.bytes))
        (hopsOf p.bytes ++ [.into (Bytes.ofString text)]) with
    | error e =>
      have horigin : s.origin ⟨(Route.ofBytes p.bytes).absolute,
          hopsOf p.bytes ++ [.into (Bytes.ofString text)], false⟩ = s.origin (Route.ofBytes p.bytes) := rfl
      rw [horigin, hwalk] at h
      cases h
    | ok _ =>
      obtain ⟨hpass, hshort⟩ := passable_of_walkWith_name hfree hwalk
      exact ⟨⟨⟨walkWith_of_passable hpass, hpass.last⟩, hnul, hfits⟩, hshort⟩

/-- What a path of an entry leads to is the entry that the path spells. -/
theorem finds_of_placeOf (hfree : s.top.LinkFree) {toTarget : Bool} {found : List Name}
    (h : s.placeOf toTarget (p / text).bytes = .ok found) :
    s.Finds p text (s.spelled p) ∧ (Bytes.ofString text).length ≤ Route.nameLimit ∧
      found = s.spelled p ++ [Bytes.ofString text] := by
  rw [placeOf] at h
  cases hspot : s.locate toTarget (p / text).bytes with
  | error fault =>
    rw [hspot] at h
    cases h
  | ok spot =>
    obtain ⟨hfinds, hshort⟩ := finds_of_locate hname hfree hspot
    refine ⟨hfinds, hshort, ?_⟩
    rw [locate_div hname hfinds hshort fun _ target => hfree _ target] at h
    by_cases hstands : (s.top.look (s.spelled p ++ [Bytes.ofString text])).isSome
    · rw [if_pos hstands] at h
      exact (Except.ok.inj h).symm
    · rw [if_neg hstands] at h
      cases h

/-- A path that names an entry leads to what stands there. -/
theorem nodeAt_of_names (hfree : s.top.LinkFree) (toTarget : Bool) (h : s.Names p text) :
    s.nodeAt toTarget (p / text).bytes =
      match s.top.get? (p.place ++ [Bytes.ofString text]) with
      | some node => .ok node
      | none => .error .notFound :=
  nodeAt_div hname h.finds h.short fun _ target => hfree _ target

/-- What a path of an entry leads to stands where the path spells it. -/
theorem finds_of_nodeAt (hfree : s.top.LinkFree) {toTarget : Bool} {node : Node}
    (h : s.nodeAt toTarget (p / text).bytes = .ok node) :
    s.Finds p text (s.spelled p) ∧ (Bytes.ofString text).length ≤ Route.nameLimit ∧
      s.top.get? (s.spelled p ++ [Bytes.ofString text]) = some node := by
  rw [nodeAt] at h
  cases hplace : s.placeOf toTarget (p / text).bytes with
  | error fault =>
    rw [hplace] at h
    cases h
  | ok found =>
    obtain ⟨hfinds, hshort, rfl⟩ := finds_of_placeOf hname hfree hplace
    refine ⟨hfinds, hshort, ?_⟩
    simp only [hplace] at h
    cases hget : s.top.get? (s.spelled p ++ [Bytes.ofString text]) with
    | none =>
      rw [hget] at h
      cases h
    | some found =>
      rw [hget] at h
      exact congrArg some (Except.ok.inj h)

/-- Nothing but a path that names an entry leads anywhere. -/
theorem nodeAt_div_eq_ok (hfree : s.top.LinkFree) (hp : p.isAbsolute = true) {toTarget : Bool}
    {node : Node} : s.nodeAt toTarget (p / text).bytes = .ok node ↔
      s.Names p text ∧ s.top.get? (p.place ++ [Bytes.ofString text]) = some node := by
  constructor
  · intro h
    obtain ⟨hfinds, hshort, hget⟩ := finds_of_nodeAt hname hfree h
    rw [spelled_of_isAbsolute hp] at hget
    exact ⟨(hfinds.names hfree hp hshort).1, hget⟩
  · rintro ⟨hnames, hget⟩
    rw [nodeAt_of_names hname hfree toTarget hnames, hget]

/-! ## Questions -/

theorem hasEntry_div (hfree : s.top.LinkFree) (hp : p.isAbsolute = true) :
    s.hasEntry (p / text).bytes = true ↔
      s.Names p text ∧ (s.top.look (p.place ++ [Bytes.ofString text])).isSome := by
  rw [hasEntry, Node.look, Option.isSome_map, Option.isSome_iff_exists]
  constructor
  · intro h
    cases hnode : s.nodeAt false (p / text).bytes with
    | error fault =>
      rw [hnode] at h
      cases h
    | ok node =>
      obtain ⟨hnames, hget⟩ := (nodeAt_div_eq_ok hname hfree hp).1 hnode
      exact ⟨hnames, node, hget⟩
  · rintro ⟨hnames, node, hget⟩
    rw [(nodeAt_div_eq_ok hname hfree hp).2 ⟨hnames, hget⟩]
    rfl

/-- A directory that a path of an entry leads to stands where the path spells it. -/
theorem finds_of_isDir (hfree : s.top.LinkFree) (h : s.isDir (p / text).bytes = true) :
    s.Finds p text (s.spelled p) ∧ (Bytes.ofString text).length ≤ Route.nameLimit ∧
      s.top.look (s.spelled p ++ [Bytes.ofString text]) = some .dir := by
  rw [isDir] at h
  cases hnode : s.nodeAt true (p / text).bytes with
  | error fault =>
    rw [hnode] at h
    cases h
  | ok node =>
    obtain ⟨hfinds, hshort, hget⟩ := finds_of_nodeAt hname hfree hnode
    rw [hnode] at h
    cases node with
    | dir entries => exact ⟨hfinds, hshort, Node.look_eq_dir.2 ⟨entries, hget⟩⟩
    | file _ _ => cases h
    | link _ => cases h

/-- A file that a path of an entry leads to stands where the path spells it. -/
theorem finds_of_isFile (hfree : s.top.LinkFree) (h : s.isFile (p / text).bytes = true) :
    s.Finds p text (s.spelled p) ∧ (Bytes.ofString text).length ≤ Route.nameLimit ∧
      ∃ content executable,
        s.top.look (s.spelled p ++ [Bytes.ofString text]) = some (.file content executable) := by
  rw [isFile] at h
  cases hnode : s.nodeAt true (p / text).bytes with
  | error fault =>
    rw [hnode] at h
    cases h
  | ok node =>
    obtain ⟨hfinds, hshort, hget⟩ := finds_of_nodeAt hname hfree hnode
    rw [hnode] at h
    cases node with
    | dir _ => cases h
    | file content executable => exact ⟨hfinds, hshort, content, executable, Node.look_eq_file.2 hget⟩
    | link _ => cases h

theorem isDir_div (hfree : s.top.LinkFree) (hp : p.isAbsolute = true) :
    s.isDir (p / text).bytes = true ↔
      s.Names p text ∧ s.top.look (p.place ++ [Bytes.ofString text]) = some .dir := by
  constructor
  · intro h
    obtain ⟨hfinds, hshort, hdir⟩ := finds_of_isDir hname hfree h
    rw [spelled_of_isAbsolute hp] at hdir
    exact ⟨(hfinds.names hfree hp hshort).1, hdir⟩
  · rintro ⟨hnames, hdir⟩
    exact isDir_of_look hname hnames.finds hnames.short hdir

end Store

end StubRelease
