/-
# StubRelease.Proofs.Tree.Reach -- walking a tree with links

A walk that ends at a directory depends on the directories and links on its way and on nothing else, so
files may come and go without its ending elsewhere (`Leads.keeps`). One name more is looked up in the
directory the walk has ended at (`walk_concat`). `Store.Reaches` says of a path which directory it leads
to; the place of an entry, and what stands there, follow for every path of an entry.
-/
import StubRelease.Proofs.Tree.Changes

namespace StubRelease

open Route (hopsOf)

namespace Node

theorem look_eq_link {n : Node} {place : List Name} {target : Bytes} :
    n.look place = some (.link target) ↔ n.get? place = some (.link target) := by
  rw [look]
  cases h : n.get? place with
  | none => simp
  | some m => cases m <;> simp [sight]

/-- Every directory and every link of the first tree is one of the second. -/
structure KeepsWays (n m : Node) : Prop where
  dirs : n.KeepsDirs m
  links : ∀ p target, n.look p = some (.link target) → m.look p = some (.link target)

namespace KeepsWays

variable {n m k : Node}

theorem refl (n : Node) : KeepsWays n n := ⟨.refl n, fun _ _ h => h⟩

theorem trans (h : KeepsWays n m) (h' : KeepsWays m k) : KeepsWays n k :=
  ⟨h.dirs.trans h'.dirs, fun p target hp => h'.links p target (h.links p target hp)⟩

/-- An entry can be put where neither a directory nor a link stands. -/
theorem put {place : List Name} {name : Name} (hdir : n.look (place ++ [name]) ≠ some .dir)
    (hlink : ∀ target, n.look (place ++ [name]) ≠ some (.link target)) (child : Node) :
    KeepsWays n (n.put place name child) := by
  refine ⟨.put hdir child, fun p target hp => ?_⟩
  rw [look_put_elsewhere, hp]
  intro hat
  exact hlink target (eq_of_isPrefix_of_look hdir hp hat ▸ hp)

theorem put_free {place : List Name} {name : Name} (hfree : n.look (place ++ [name]) = none) (child : Node) :
    KeepsWays n (n.put place name child) :=
  .put (by simp [hfree]) (by simp [hfree]) child

/-- A file takes no directory and no link away when it is put where it is seen to be put. -/
theorem of_put_file {place : List Name} (hplace : n.look place = some .dir) (name : Name)
    (content : Content) (executable : Bool) :
    KeepsWays (n.put place name (.file content executable)) n := by
  have hfile (p : List Name) (seen : Sight) (hseen : ∀ c x, seen ≠ .file c x)
      (hp : (n.put place name (.file content executable)).look p = some seen) : n.look p = some seen := by
    by_cases hat : place ++ [name] <+: p
    · obtain ⟨rest, rfl⟩ := hat
      rw [List.append_assoc, List.singleton_append, look_put hplace] at hp
      cases rest with
      | nil => exact absurd (Option.some.inj hp).symm (hseen content executable)
      | cons _ _ => cases hp
    · rwa [look_put_elsewhere n _ hat] at hp
  exact ⟨fun p => hfile p .dir (by simp), fun p target => hfile p (.link target) (by simp)⟩

end KeepsWays

end Node

/-! ## One hop -/

/-- Where one hop leads from a place. -/
def Hop.move (place : List Name) : Hop → List Name
  | .here => place
  | .up => place.dropLast
  | .into name => place ++ [name]

/-- Whether a hop's name can be looked up. -/
def Hop.Short : Hop → Prop
  | .into name => name.length ≤ Route.nameLimit
  | _ => True

/-- A hop that leads on by itself: an entry it goes into is there and is no link. -/
def Hop.Direct (top : Node) (place : List Name) (hop : Hop) : Prop :=
  hop.Short ∧ ∀ name, hop = .into name →
    top.look (place ++ [name]) ≠ none ∧ ∀ target, top.look (place ++ [name]) ≠ some (.link target)

/-- A hop into an entry that is seen to be a file or a directory. -/
theorem Hop.direct_into {top : Node} {place : List Name} {name : Name} {seen : Sight}
    (hshort : name.length ≤ Route.nameLimit) (hseen : top.look (place ++ [name]) = some seen)
    (hlink : ∀ target, seen ≠ .link target) : (Hop.into name).Direct top place := by
  refine ⟨hshort, ?_⟩
  rintro _ ⟨⟩
  rw [hseen]
  exact ⟨by simp, fun target h => hlink target (Option.some.inj h)⟩

namespace Store

open Node

variable {top other : Node} {place goal : List Name} {jump jump' : List Name → List Hop → Except Errno Spot}
  {follow : Bool} {hop : Hop} {rest hops : List Hop} {spot : Spot} {result : Except Errno Spot}

theorem walkWith_direct (hplace : top.look place = some .dir) (h : hop.Direct top place) :
    walkWith jump top follow place (hop :: rest) = walkWith jump top follow (hop.move place) rest := by
  obtain ⟨entries, hentries⟩ := look_eq_dir.1 hplace
  rw [walkWith, hentries]
  cases hop with
  | here => rfl
  | up => rfl
  | into name =>
    obtain ⟨hshort, hentry⟩ := h
    obtain ⟨hthere, hlink⟩ := hentry name rfl
    have hname : ¬ Route.nameLimit < name.length := Nat.not_lt.2 hshort
    have hfind := find?_of_get? hentries name
    simp only [hname, if_false]
    cases hchild : Listing.find? name entries with
    | none => exact absurd (look_eq_none.2 (hfind ▸ hchild)) hthere
    | some child =>
      cases child with
      | file _ _ => rfl
      | dir _ => rfl
      | link target => exact absurd (look_eq_link.2 (hfind ▸ hchild)) (hlink target)

theorem walkWith_link (hplace : top.look place = some .dir) {name : Name} {target : Bytes}
    (hshort : name.length ≤ Route.nameLimit)
    (hlink : top.look (place ++ [name]) = some (.link target)) :
    walkWith jump top follow place (.into name :: rest) =
      if rest.isEmpty && !follow then .ok (.taken (place ++ [name]))
      else jump (if (Route.ofBytes target).absolute then [] else place)
        ((Route.ofBytes target).allHops ++ rest) := by
  obtain ⟨entries, hentries⟩ := look_eq_dir.1 hplace
  have hname : ¬ Route.nameLimit < name.length := Nat.not_lt.2 hshort
  rw [walkWith, hentries]
  simp only [hname, if_false, find?_of_get? hentries name, look_eq_link.1 hlink]

/-- What the first hop of a walk that does not fail has done: it was taken in a directory, and it led on
by itself, or it was the last and nothing has its name, or it has met a link. -/
theorem walkWith_cons (h : walkWith jump top follow place (hop :: rest) = .ok spot) :
    top.look place = some .dir ∧ hop.Short ∧
      (hop.Direct top place ∧ walkWith jump top follow (hop.move place) rest = .ok spot ∨
        (∃ name, hop = .into name ∧ top.look (place ++ [name]) = none ∧ rest = [] ∧
          spot = .free place name) ∨
        ∃ name target, hop = .into name ∧ top.look (place ++ [name]) = some (.link target)) := by
  have hstart := h
  rw [walkWith] at h
  cases hnode : top.get? place with
  | none =>
    rw [hnode] at h
    cases h
  | some node =>
    rw [hnode] at h
    cases node with
    | file _ _ => cases h
    | link _ => cases h
    | dir entries =>
      have hplace : top.look place = some .dir := look_eq_dir.2 ⟨entries, hnode⟩
      cases hop with
      | here => exact ⟨hplace, trivial, .inl ⟨⟨trivial, by rintro _ ⟨⟩⟩, h⟩⟩
      | up => exact ⟨hplace, trivial, .inl ⟨⟨trivial, by rintro _ ⟨⟩⟩, h⟩⟩
      | into name =>
        by_cases hlong : Route.nameLimit < name.length
        · simp [hlong] at h
        · have hshort : name.length ≤ Route.nameLimit := Nat.le_of_not_lt hlong
          refine ⟨hplace, hshort, ?_⟩
          cases hseen : top.look (place ++ [name]) with
          | none =>
            have hfind := find?_of_get? hnode name
            rw [look_eq_none.1 hseen] at hfind
            simp only [hlong, if_false, hfind] at h
            cases rest with
            | nil => exact .inr (.inl ⟨name, rfl, hseen, rfl, (Except.ok.inj h).symm⟩)
            | cons _ _ => cases h
          | some seen =>
            cases seen with
            | link target => exact .inr (.inr ⟨name, target, rfl, hseen⟩)
            | file _ _ =>
              have hdirect := Hop.direct_into hshort hseen (by simp)
              exact .inl ⟨hdirect, by rwa [walkWith_direct hplace hdirect] at hstart⟩
            | dir =>
              have hdirect := Hop.direct_into hshort hseen (by simp)
              exact .inl ⟨hdirect, by rwa [walkWith_direct hplace hdirect] at hstart⟩

/-! ## Walks -/

/-- A walk to a directory starts at one. -/
theorem look_of_walkWith (hgoal : top.look goal = some .dir)
    (h : walkWith jump top follow place hops = .ok (.taken goal)) : top.look place = some .dir := by
  cases hops with
  | nil =>
    cases h
    exact hgoal
  | cons hop rest => exact (walkWith_cons h).1

/-- A walk to a directory is the same walk as long as directories and links stay. -/
theorem walkWith_keeps (hkeeps : top.KeepsWays other) (hgoal : top.look goal = some .dir)
    (hjump : ∀ place hops, jump place hops = .ok (.taken goal) → jump' place hops = .ok (.taken goal))
    (h : walkWith jump top follow place hops = .ok (.taken goal)) :
    walkWith jump' other follow place hops = .ok (.taken goal) := by
  -- on the hops; what a walk to a directory goes through are directories and links, which are kept
  induction hops generalizing place with
  | nil =>
    cases h
    rfl
  | cons hop rest ih =>
    obtain ⟨hplace, hshort, ⟨hdirect, hnext⟩ | ⟨_, _, _, _, hspot⟩ | ⟨name, target, rfl, hlink⟩⟩ :=
      walkWith_cons h
    · have hdir := look_of_walkWith hgoal hnext
      have hdirect' : hop.Direct other place := by
        refine ⟨hshort, ?_⟩
        rintro name rfl
        have hstays : other.look (place ++ [name]) = some .dir := hkeeps.dirs _ hdir
        simp [hstays]
      rw [walkWith_direct (hkeeps.dirs _ hplace) hdirect']
      exact ih hnext
    · cases hspot
    · rw [walkWith_link hplace hshort hlink] at h
      rw [walkWith_link (hkeeps.dirs _ hplace) hshort (hkeeps.links _ _ hlink)]
      split at h
      · cases h
        rw [hlink] at hgoal
        cases hgoal
      · rename_i hgo
        rw [if_neg hgo]
        exact hjump _ _ h

theorem walk_keeps (hkeeps : top.KeepsWays other) (hgoal : top.look goal = some .dir) (n : Nat)
    (h : walk top follow n place hops = .ok (.taken goal)) :
    walk other follow n place hops = .ok (.taken goal) := by
  induction n generalizing place hops with
  | zero => exact walkWith_keeps hkeeps hgoal (fun _ _ h => by cases h) h
  | succ n ih => exact walkWith_keeps hkeeps hgoal (fun _ _ h => ih h) h

/-- One hop more is taken where the walk without it has ended. -/
theorem walkWith_concat (hend : walkWith jump' top follow goal [hop] = result)
    (hjump : ∀ place hops, jump place hops = .ok (.taken goal) → jump' place (hops ++ [hop]) = result)
    (h : walkWith jump top true place hops = .ok (.taken goal)) :
    walkWith jump' top follow place (hops ++ [hop]) = result := by
  -- on the hops: with one hop more no link on the way is the last one, so every link is followed
  induction hops generalizing place with
  | nil =>
    cases h
    exact hend
  | cons first rest ih =>
    rw [List.cons_append]
    obtain ⟨hplace, hshort, ⟨hdirect, hnext⟩ | ⟨_, _, _, _, hspot⟩ | ⟨name, target, rfl, hlink⟩⟩ :=
      walkWith_cons h
    · rw [walkWith_direct hplace hdirect]
      exact ih hnext
    · cases hspot
    · rw [walkWith_link hplace hshort hlink, Bool.not_true, Bool.and_false] at h
      have hmore : (rest ++ [hop]).isEmpty = false := by simp
      rw [walkWith_link hplace hshort hlink, hmore, Bool.false_and, ← List.append_assoc]
      exact hjump _ _ h

theorem walk_concat (hend : ∀ jump, walkWith jump top follow goal [hop] = result) (n : Nat)
    (h : walk top true n place hops = .ok (.taken goal)) :
    walk top follow n place (hops ++ [hop]) = result := by
  induction n generalizing place hops with
  | zero => exact walkWith_concat (hend _) (fun _ _ h => by cases h) h
  | succ n ih => exact walkWith_concat (hend _) (fun _ _ h => ih h) h

/-- The last name of a way is looked up in the directory the way has led to; a link that has the name
must not be followed. -/
theorem walkWith_name (jump : List Name → List Hop → Except Errno Spot) {name : Name}
    (hplace : top.look place = some .dir) (hshort : name.length ≤ Route.nameLimit)
    (hlink : follow = true → ∀ target, top.look (place ++ [name]) ≠ some (.link target)) :
    walkWith jump top follow place [.into name] =
      .ok (if (top.look (place ++ [name])).isSome then .taken (place ++ [name])
        else .free place name) := by
  cases hseen : top.look (place ++ [name]) with
  | none =>
    obtain ⟨entries, hentries⟩ := look_eq_dir.1 hplace
    have hname : ¬ Route.nameLimit < name.length := Nat.not_lt.2 hshort
    rw [walkWith, hentries]
    simp [hname, find?_of_get? hentries name, look_eq_none.1 hseen]
  | some seen =>
    cases seen with
    | link target =>
      cases follow with
      | false => rw [walkWith_link hplace hshort hseen]; rfl
      | true => exact absurd hseen (hlink rfl target)
    | file _ _ => exact walkWith_direct hplace (Hop.direct_into hshort hseen (by simp))
    | dir => exact walkWith_direct hplace (Hop.direct_into hshort hseen (by simp))

theorem walkWith_of_long (jump : List Name → List Hop → Except Errno Spot) {name : Name}
    (hplace : top.look place = some .dir) (hlong : ¬ name.length ≤ Route.nameLimit) :
    walkWith jump top follow place [.into name] = .error .nameTooLong := by
  obtain ⟨entries, hentries⟩ := look_eq_dir.1 hplace
  rw [walkWith, hentries]
  simp [Nat.lt_of_not_le hlong]

/-- Where a walk ends at a free name, a directory stands and nothing has the name. -/
theorem walkWith_free {name : Name} (hjump : ∀ place hops, jump place hops = .ok (.free goal name) →
      top.look goal = some .dir ∧ top.look (goal ++ [name]) = none)
    (h : walkWith jump top follow place hops = .ok (.free goal name)) :
    top.look goal = some .dir ∧ top.look (goal ++ [name]) = none := by
  induction hops generalizing place with
  | nil => cases h
  | cons hop rest ih =>
    obtain ⟨hplace, hshort, ⟨-, hnext⟩ | ⟨_, _, hnone, _, hspot⟩ | ⟨_, _, rfl, hlink⟩⟩ := walkWith_cons h
    · exact ih hnext
    · cases hspot
      exact ⟨hplace, hnone⟩
    · rw [walkWith_link hplace hshort hlink] at h
      split at h
      · cases h
      · exact hjump _ _ h

theorem walk_free {name : Name} (n : Nat) (h : walk top follow n place hops = .ok (.free goal name)) :
    top.look goal = some .dir ∧ top.look (goal ++ [name]) = none := by
  induction n generalizing place hops with
  | zero => exact walkWith_free (fun _ _ h => by cases h) h
  | succ n ih => exact walkWith_free (fun _ _ h => ih h) h

/-! ## Ways and paths -/

/-- A way leads to a directory. -/
structure Leads (s : Store) (r : Route) (d : List Name) : Prop where
  walk : Store.walk s.top true linkLimit (s.origin r) r.hops = .ok (.taken d)
  dir : s.top.look d = some .dir

/-- A path leads to a directory. -/
def Reaches (s : Store) (p : Path) (d : List Name) : Prop := s.Leads (Route.ofBytes p.bytes) d

variable {s t : Store} {r : Route} {p : Path} {text : String} {d : List Name}

theorem Leads.keeps (hkeeps : s.top.KeepsWays t.top) (hcwd : t.cwd = s.cwd) (h : s.Leads r d) :
    t.Leads r d := by
  refine ⟨?_, hkeeps.dirs _ h.dir⟩
  rw [origin, hcwd]
  exact walk_keeps hkeeps h.dir _ h.walk

/-- A way leads to one directory only. -/
theorem Leads.unique {d' : List Name} (h : s.Leads r d) (h' : s.Leads r d') : d = d' := by
  have := h.walk.symm.trans h'.walk
  cases this
  rfl

/-- A path goes on leading where it leads as long as directories and links stay. -/
theorem Reaches.keeps (hkeeps : s.top.KeepsWays t.top) (hcwd : t.cwd = s.cwd) (h : s.Reaches p d) :
    t.Reaches p d :=
  Leads.keeps hkeeps hcwd h

/-- The last step of a way is taken where the way without it leads. -/
theorem placeOfRoute_eq_ok {found : Place} : s.placeOfRoute r = .ok found ↔
    ∃ d, s.Leads ⟨r.absolute, r.hops.dropLast, false⟩ d ∧ found = ⟨d, match r.hops.getLast? with
      | some (.into name) => .name name
      | step => .fixed step, r.slash⟩ := by
  rw [placeOfRoute]
  constructor
  · intro h
    cases hwalk : walk s.top true linkLimit (s.origin r) r.hops.dropLast with
    | error e =>
      rw [hwalk] at h
      cases h
    | ok spot =>
      rw [hwalk] at h
      cases spot with
      | free _ _ => cases h
      | taken goal =>
        cases hnode : s.top.get? goal with
        | none => simp [hnode] at h
        | some node =>
          cases node with
          | file _ _ => simp [hnode] at h
          | link _ => simp [hnode] at h
          | dir entries =>
            refine ⟨goal, ⟨hwalk, look_eq_dir.2 ⟨entries, hnode⟩⟩, ?_⟩
            simp only [hnode] at h
            cases hlast : r.hops.getLast? with
            | none =>
              rw [hlast] at h
              exact (Except.ok.inj h).symm
            | some step =>
              rw [hlast] at h
              cases step <;> exact (Except.ok.inj h).symm
  · rintro ⟨goal, ⟨hwalk, hgoal⟩, rfl⟩
    obtain ⟨entries, hentries⟩ := look_eq_dir.1 hgoal
    have hwalk' : walk s.top true linkLimit (s.origin r) r.hops.dropLast = .ok (.taken goal) := hwalk
    simp only [hwalk', hentries]
    cases r.hops.getLast? with
    | none => rfl
    | some step => cases step <;> rfl

theorem place_eq_ok {path : Bytes} {found : Place} :
    s.place path = .ok found ↔ ∃ r, Route.read path = .ok r ∧ s.placeOfRoute r = .ok found := by
  rw [place]
  cases Route.read path with
  | error fault => simp
  | ok r => cases hplace : s.placeOfRoute r <;> simp [hplace]

/-! ## A path of an entry -/

/-- A path of an entry can be read unless it is too long. -/
theorem read_div (hname : IsName (Bytes.ofString text)) (hnul : (0 : UInt8) ∉ p.bytes)
    (hfits : (p / text).bytes.length < Route.lengthLimit) :
    Route.read (p / text).bytes = .ok (Route.ofBytes (p / text).bytes) := by
  have hnul' : ¬ (0 : UInt8) ∈ (p / text).bytes := by rwa [Path.mem_bytes_div hname]
  rw [Route.read, if_neg hnul', if_neg (Path.bytes_div_ne_nil hname), if_neg (Nat.not_le.2 hfits)]

theorem read_div_eq_ok (hname : IsName (Bytes.ofString text)) (h : Route.read (p / text).bytes = .ok r) :
    (0 : UInt8) ∉ p.bytes ∧ (p / text).bytes.length < Route.lengthLimit ∧
      r = Route.ofBytes (p / text).bytes := by
  rw [← Path.mem_bytes_div hname]
  exact Route.read_eq_ok h

/-- A way to an entry is walked to the directory first. -/
theorem placeOfRoute_div (hname : IsName (Bytes.ofString text)) {found : Place} :
    s.placeOfRoute (Route.ofBytes (p / text).bytes) = .ok found ↔
      ∃ d, s.Reaches p d ∧ found = ⟨d, .name (Bytes.ofString text), false⟩ := by
  rw [Route.ofBytes_div hname, placeOfRoute_eq_ok, List.dropLast_concat, List.getLast?_concat]
  constructor
  · rintro ⟨d, ⟨hwalk, hdir⟩, rfl⟩
    exact ⟨d, ⟨hwalk, hdir⟩, rfl⟩
  · rintro ⟨d, ⟨hwalk, hdir⟩, rfl⟩
    exact ⟨d, ⟨hwalk, hdir⟩, rfl⟩

/-- A path of an entry that the operating system accepts, and the directory the entry is looked up in. -/
structure Finds (s : Store) (p : Path) (text : String) (d : List Name) : Prop where
  reaches : s.Reaches p d
  no_nul : (0 : UInt8) ∉ p.bytes
  fits : (p / text).bytes.length < Route.lengthLimit

theorem Finds.keeps (hkeeps : s.top.KeepsWays t.top) (hcwd : t.cwd = s.cwd) (h : s.Finds p text d) :
    t.Finds p text d :=
  ⟨h.reaches.keeps hkeeps hcwd, h.no_nul, h.fits⟩

variable (hname : IsName (Bytes.ofString text))

include hname

theorem place_div_eq_ok {found : Place} : s.place (p / text).bytes = .ok found ↔
    ∃ d, s.Finds p text d ∧ found = ⟨d, .name (Bytes.ofString text), false⟩ := by
  rw [place_eq_ok]
  constructor
  · rintro ⟨r, hread, hplace⟩
    obtain ⟨hnul, hfits, rfl⟩ := read_div_eq_ok hname hread
    obtain ⟨d, hreaches, rfl⟩ := (placeOfRoute_div hname).1 hplace
    exact ⟨d, ⟨hreaches, hnul, hfits⟩, rfl⟩
  · rintro ⟨d, ⟨hreaches, hnul, hfits⟩, rfl⟩
    exact ⟨_, read_div hname hnul hfits, (placeOfRoute_div hname).2 ⟨d, hreaches, rfl⟩⟩

/-- The way to an entry leads to the entry, unless that is a link which has to be followed. -/
theorem follow_div (h : s.Reaches p d) (hshort : (Bytes.ofString text).length ≤ Route.nameLimit)
    {toTarget : Bool} (hlink : toTarget = true →
      ∀ target, s.top.look (d ++ [Bytes.ofString text]) ≠ some (.link target)) :
    s.follow toTarget (Route.ofBytes (p / text).bytes) =
      .ok (if (s.top.look (d ++ [Bytes.ofString text])).isSome
        then .taken (d ++ [Bytes.ofString text]) else .free d (Bytes.ofString text)) := by
  rw [Route.ofBytes_div hname]
  exact walk_concat (fun jump => walkWith_name jump h.dir hshort hlink) linkLimit h.walk

theorem locate_div (h : s.Finds p text d) (hshort : (Bytes.ofString text).length ≤ Route.nameLimit)
    {toTarget : Bool} (hlink : toTarget = true →
      ∀ target, s.top.look (d ++ [Bytes.ofString text]) ≠ some (.link target)) :
    s.locate toTarget (p / text).bytes =
      .ok (if (s.top.look (d ++ [Bytes.ofString text])).isSome
        then .taken (d ++ [Bytes.ofString text]) else .free d (Bytes.ofString text)) := by
  rw [locate, read_div hname h.no_nul h.fits]
  simp only [follow_div hname h.reaches hshort hlink]

/-- A name that is too long is not looked up. -/
theorem locate_of_long (h : s.Finds p text d) (toTarget : Bool)
    (hlong : ¬ (Bytes.ofString text).length ≤ Route.nameLimit) :
    s.locate toTarget (p / text).bytes = .error (.os .nameTooLong) := by
  have hend (jump : List Name → List Hop → Except Errno Spot) :
      walkWith jump s.top toTarget d [.into (Bytes.ofString text)] = .error .nameTooLong :=
    walkWith_of_long jump h.reaches.dir hlong
  have hwalk := walk_concat hend linkLimit h.reaches.walk
  have hfollow : s.follow toTarget (Route.ofBytes (p / text).bytes) = .error .nameTooLong := by
    rw [Route.ofBytes_div hname]
    exact hwalk
  rw [locate, read_div hname h.no_nul h.fits]
  simp only [hfollow]

theorem short_of_locate (h : s.Finds p text d) {toTarget : Bool}
    (hspot : s.locate toTarget (p / text).bytes = .ok spot) :
    (Bytes.ofString text).length ≤ Route.nameLimit := by
  refine Classical.byContradiction fun hlong => ?_
  rw [locate_of_long hname h toTarget hlong] at hspot
  cases hspot

/-- What stands at a path of an entry, unless it is a link that has to be followed. -/
theorem nodeAt_div (h : s.Finds p text d) (hshort : (Bytes.ofString text).length ≤ Route.nameLimit)
    {toTarget : Bool} (hlink : toTarget = true →
      ∀ target, s.top.look (d ++ [Bytes.ofString text]) ≠ some (.link target)) :
    s.nodeAt toTarget (p / text).bytes =
      match s.top.get? (d ++ [Bytes.ofString text]) with
      | some node => .ok node
      | none => .error .notFound := by
  rw [nodeAt, placeOf, locate_div hname h hshort hlink, Node.look, Option.isSome_map]
  cases hnode : s.top.get? (d ++ [Bytes.ofString text]) <;> simp [hnode]

/-! ## Questions about an entry -/

theorem present_of_look (h : s.Finds p text d) (hshort : (Bytes.ofString text).length ≤ Route.nameLimit)
    {seen : Sight} (hseen : s.top.look (d ++ [Bytes.ofString text]) = some seen)
    (hlink : ∀ target, seen ≠ .link target) : s.present (p / text).bytes = true := by
  rw [present, nodeAt_div hname h hshort (by simpa [hseen] using hlink)]
  rw [look, Option.map_eq_some_iff] at hseen
  obtain ⟨node, hnode, -⟩ := hseen
  rw [hnode]
  rfl

theorem not_present_of_look (h : s.Finds p text d)
    (hshort : (Bytes.ofString text).length ≤ Route.nameLimit)
    (hnone : s.top.look (d ++ [Bytes.ofString text]) = none) : s.present (p / text).bytes = false := by
  rw [present, nodeAt_div hname h hshort (by simp [hnone]), look_eq_none.1 hnone]
  rfl

theorem isDir_of_look (h : s.Finds p text d) (hshort : (Bytes.ofString text).length ≤ Route.nameLimit)
    (hdir : s.top.look (d ++ [Bytes.ofString text]) = some .dir) : s.isDir (p / text).bytes = true := by
  obtain ⟨entries, hentries⟩ := look_eq_dir.1 hdir
  rw [isDir, nodeAt_div hname h hshort (by simp [hdir]), hentries]
  rfl

theorem isFile_of_look (h : s.Finds p text d) (hshort : (Bytes.ofString text).length ≤ Route.nameLimit)
    {content : Content} {executable : Bool}
    (hfile : s.top.look (d ++ [Bytes.ofString text]) = some (.file content executable)) :
    s.isFile (p / text).bytes = true := by
  rw [isFile, nodeAt_div hname h hshort (by simp [hfile]), look_eq_file.1 hfile]
  rfl

theorem not_isFile_of_look (h : s.Finds p text d)
    (hshort : (Bytes.ofString text).length ≤ Route.nameLimit)
    (hnone : s.top.look (d ++ [Bytes.ofString text]) = none) : s.isFile (p / text).bytes = false := by
  rw [isFile, nodeAt_div hname h hshort (by simp [hnone]), look_eq_none.1 hnone]

/-! ## Going into an entry -/

/-- A path leads to an entry that is a directory. -/
theorem reaches_div (h : s.Reaches p d) (hshort : (Bytes.ofString text).length ≤ Route.nameLimit)
    (hdir : s.top.look (d ++ [Bytes.ofString text]) = some .dir) :
    s.Reaches (p / text) (d ++ [Bytes.ofString text]) := by
  rw [Reaches, Route.ofBytes_div hname]
  refine ⟨?_, hdir⟩
  have hend (jump : List Name → List Hop → Except Errno Spot) :
      walkWith jump s.top true d [.into (Bytes.ofString text)] =
        .ok (.taken (d ++ [Bytes.ofString text])) :=
    walkWith_direct h.dir (Hop.direct_into hshort hdir (by simp))
  exact walk_concat hend linkLimit h.walk

/-- A path of a directory is walked to it. -/
theorem reaches_div_iff : s.Reaches (p / text) d ↔
    s.follow true (Route.ofBytes (p / text).bytes) = .ok (.taken d) ∧ s.top.look d = some .dir := by
  rw [Reaches, Route.ofBytes_div hname]
  constructor
  · rintro ⟨hwalk, hdir⟩
    exact ⟨hwalk, hdir⟩
  · rintro ⟨hwalk, hdir⟩
    exact ⟨hwalk, hdir⟩

/-- The place of a directory that a path leads to. -/
theorem placeOf_div (hnul : (0 : UInt8) ∉ p.bytes) (hfits : (p / text).bytes.length < Route.lengthLimit)
    (h : s.Reaches (p / text) d) : s.placeOf true (p / text).bytes = .ok d := by
  rw [placeOf, locate, read_div hname hnul hfits]
  simp only [((reaches_div_iff hname).1 h).1]

end Store

end StubRelease
