/-
# StubRelease.Proofs.Tree.Steps -- file operations on entries

What each file operation does in a tree without links to the entry that a path names, outcome and store,
and that an operation on a path that names no entry is refused and changes nothing. Later proofs speak of
edits at places and open no operation.
-/
import StubRelease.Proofs.Sequence
import StubRelease.Proofs.Tree.Ways

namespace StubRelease

open Sequence
open Route (hopsOf)

namespace Store

@[simp] theorem top_put (s : Store) (dir : List Name) (name : Name) (node : Node) :
    (s.put dir name node).top = s.top.put dir name node := rfl

@[simp] theorem top_drop (s : Store) (dir : List Name) (name : Name) :
    (s.drop dir name).top = s.top.drop dir name := rfl

@[simp] theorem replace_concat (s : Store) (dir : List Name) (name : Name) (node : Node) :
    s.replace (dir ++ [name]) node = s.put dir name node := by
  simp [replace]

end Store

namespace Node

/-- No directory is at or below a place where nothing stands. -/
theorem not_isPrefix_of_free {n : Node} {place e : List Name} (hnone : n.look place = none)
    (he : n.look e = some .dir) : ¬ place <+: e := by
  intro hup
  have hnot : n.look place ≠ some .dir := by simp [hnone]
  rw [eq_of_isPrefix_of_look hnot he hup, hnone] at he
  cases he

theorem editDir_editDir (first second : Listing Node → Listing Node) (place : List Name) (n : Node) :
    editDir second place (editDir first place n) = editDir (second ∘ first) place n := by
  induction place generalizing n with
  | nil => cases n <;> rfl
  | cons a rest ih =>
    cases n with
    | file _ _ => rfl
    | link _ => rfl
    | dir entries =>
      rw [editDir, editDir]
      cases hchild : Listing.find? a entries with
      | none => simp [editDir, hchild]
      | some child => simp [editDir, ih]

/-- Of two nodes put in one place the second stays. -/
@[simp] theorem put_put (n : Node) (place : List Name) (name : Name) (a b : Node) :
    (n.put place name a).put place name b = n.put place name b := by
  rw [put, put, editDir_editDir, put]
  congr 1
  funext entries
  exact Listing.put_put name a b entries

@[simp] theorem drop_put (n : Node) (place : List Name) (name : Name) (a : Node) :
    (n.put place name a).drop place name = n.drop place name := by
  rw [drop, put, editDir_editDir, drop]
  congr 1
  funext entries
  exact Listing.drop_put name a entries

/-- What is seen after an entry of the directory `e` was moved to an entry of the directory `d`. -/
theorem look_move {n : Node} (node : Node) {e d : List Name} {a b : Name} (hd : n.look d = some .dir)
    (hdown : ¬ e ++ [a] <+: d) (hup : ¬ d ++ [b] <+: e) (hne : e ++ [a] ≠ d ++ [b]) :
    ((n.drop e a).put d b node).get? (d ++ [b]) = some node ∧
      (∀ rest, ((n.drop e a).put d b node).look (e ++ a :: rest) = none) ∧
      ∀ p, ¬ e ++ [a] <+: p → ¬ d ++ [b] <+: p → ((n.drop e a).put d b node).look p = n.look p := by
  have hdropped : (n.drop e a).look d = some .dir := by rwa [look_drop_elsewhere n hdown]
  refine ⟨get?_put_self hdropped b node, fun rest => ?_, fun p hsource hdest => ?_⟩
  · have hapart : ¬ d ++ [b] <+: e ++ a :: rest := by
      intro hbelow
      have hsource : e ++ [a] <+: e ++ a :: rest := entry_isPrefix_iff.2 rfl
      -- of two places above a third one is above the other
      obtain h | h := List.prefix_or_prefix_of_prefix hsource hbelow
      · exact (List.prefix_concat_iff.1 h).elim hne hdown
      · exact (List.prefix_concat_iff.1 h).elim (fun heq => hne heq.symm) hup
    rw [look_put_elsewhere _ _ hapart, look_drop]
  · rw [look_put_elsewhere _ _ hdest, look_drop_elsewhere _ hsource]

end Node

namespace Store

@[simp] theorem put_put (s : Store) (dir : List Name) (name : Name) (a b : Node) :
    (s.put dir name a).put dir name b = s.put dir name b := by
  rw [put, put, put, Node.put_put]

@[simp] theorem drop_put (s : Store) (dir : List Name) (name : Name) (a : Node) :
    (s.put dir name a).drop dir name = s.drop dir name := by
  rw [put, drop, drop, Node.drop_put]

/-- Filling a file that was just put somewhere is putting the filled file there. -/
theorem fill_put {s : Store} {dir : List Name} (hdir : s.top.look dir = some .dir) (name : Name)
    (old new : Content) (executable : Bool) :
    (s.put dir name (.file old executable)).fill (dir ++ [name]) new =
      s.put dir name (.file new executable) := by
  rw [fill, top_put, Node.get?_put_self hdir]
  simp

end Store

namespace Files

variable {s : Store} {p q : Path} {text other : String} {d e : List Name}

theorem ask_eq {α : Type} (question : Store → Except IoFault α) (s : Store) :
    ask question s = (question s, s) := by
  rw [ask, run_bind, run_get]
  cases h : question s <;> simp [h, ask.liftExcept, run_pure, run_throw]

theorem refuse_eq {α : Type} (e : Errno) (s : Store) :
    (refuse e : Files α) s = (.error (.os e), s) := rfl

theorem entry_eq {dir : List Name} {name : Name} (hshort : name.length ≤ Route.nameLimit) :
    entry dir name s = (.ok (s.top.get? (dir ++ [name])), s) := by
  rw [entry, run_bind, run_get]
  simp [Store.entry, Nat.not_lt.2 hshort, run_pure]

theorem entry_of_long {dir : List Name} {name : Name} (hlong : ¬ name.length ≤ Route.nameLimit) :
    entry dir name s = (.error (.os .nameTooLong), s) := by
  rw [entry, run_bind, run_get]
  simp [Store.entry, Nat.lt_of_not_le hlong, refuse_eq]

/-- The last step of a path is taken in the directory that the path leads to, or the path is refused. -/
theorem place_finds (hname : IsName (Bytes.ofString text)) :
    (∃ fault, s.place (p / text).bytes = .error fault) ∨
      ∃ d, s.Finds p text d ∧ s.place (p / text).bytes = .ok ⟨d, .name (Bytes.ofString text), false⟩ := by
  cases hplace : s.place (p / text).bytes with
  | error fault => exact .inl ⟨fault, rfl⟩
  | ok found =>
    obtain ⟨d, hfinds, rfl⟩ := (Store.place_div_eq_ok hname).1 hplace
    exact .inr ⟨d, hfinds, rfl⟩

/-! ## Making directories -/

theorem makeDirAlong_of_finds (hname : IsName (Bytes.ofString text)) (h : s.Finds p text d)
    (hshort : (Bytes.ofString text).length ≤ Route.nameLimit) :
    makeDirAlong (Route.ofBytes (p / text).bytes) s =
      match s.top.get? (d ++ [Bytes.ofString text]) with
      | some _ => (.error (.os .alreadyExists), s)
      | none => (.ok (), s.put d (Bytes.ofString text) .emptyDir) := by
  simp only [makeDirAlong, run_bind, run_get, (Store.placeOfRoute_div hname).2 ⟨_, h.reaches, rfl⟩,
    entry_eq hshort]
  cases s.top.get? (d ++ [Bytes.ofString text]) <;> rfl

theorem makeDir_of_finds (hname : IsName (Bytes.ofString text)) (h : s.Finds p text d)
    (hshort : (Bytes.ofString text).length ≤ Route.nameLimit) :
    makeDir (p / text).bytes s =
      match s.top.get? (d ++ [Bytes.ofString text]) with
      | some _ => (.error (.os .alreadyExists), s)
      | none => (.ok (), s.put d (Bytes.ofString text) .emptyDir) := by
  rw [makeDir, run_bind, ask_eq, Store.read_div hname h.no_nul h.fits]
  exact makeDirAlong_of_finds hname h hshort

/-- A directory is made where nothing stands, or nothing happens. -/
theorem makeDir_finds (hname : IsName (Bytes.ofString text)) :
    (∃ fault, makeDir (p / text).bytes s = (.error fault, s)) ∨
      ∃ d, s.Finds p text d ∧ (Bytes.ofString text).length ≤ Route.nameLimit ∧
        s.top.get? (d ++ [Bytes.ofString text]) = none ∧
        makeDir (p / text).bytes s = (.ok (), s.put d (Bytes.ofString text) .emptyDir) := by
  rw [makeDir, run_bind, ask_eq]
  cases hread : Route.read (p / text).bytes with
  | error fault => exact .inl ⟨fault, rfl⟩
  | ok r =>
    obtain ⟨hnul, hfits, rfl⟩ := Store.read_div_eq_ok hname hread
    simp only [makeDirAlong, run_bind, run_get]
    cases hroute : s.placeOfRoute (Route.ofBytes (p / text).bytes) with
    | error e => exact .inl ⟨_, rfl⟩
    | ok found =>
      obtain ⟨d, hreaches, rfl⟩ := (Store.placeOfRoute_div hname).1 hroute
      simp only [run_bind]
      by_cases hshort : (Bytes.ofString text).length ≤ Route.nameLimit
      · rw [entry_eq hshort]
        cases hentry : s.top.get? (d ++ [Bytes.ofString text]) with
        | some _ => exact .inl ⟨_, rfl⟩
        | none => exact .inr ⟨d, ⟨hreaches, hnul, hfits⟩, hshort, hentry, rfl⟩
      · rw [entry_of_long hshort]
        exact .inl ⟨_, rfl⟩

theorem makeDir_cases (hfree : s.top.LinkFree) (hp : p.isAbsolute = true)
    (hname : IsName (Bytes.ofString text)) :
    (∃ fault, makeDir (p / text).bytes s = (.error fault, s)) ∨
      s.Names p text ∧ s.top.get? (p.place ++ [Bytes.ofString text]) = none ∧
        makeDir (p / text).bytes s = (.ok (), s.put p.place (Bytes.ofString text) .emptyDir) := by
  obtain hrefused | ⟨d, hfinds, hshort, hnone, hmade⟩ := makeDir_finds (s := s) (p := p) hname
  · exact .inl hrefused
  · obtain ⟨hnames, rfl⟩ := hfinds.names hfree hp hshort
    exact .inr ⟨hnames, hnone, hmade⟩

/-- Listing a directory changes nothing. -/
theorem readDir_eq (order : Listing.Order) (path : Bytes) (s : Store) :
    readDir order path s = (match s.nodeAt true path with
      | .ok (.dir entries) => .ok (order.arrange path (Listing.names entries))
      | .ok _ => .error (.os .notDirectory)
      | .error fault => .error fault, s) := by
  rw [readDir, run_bind, ask_eq]
  cases s.nodeAt true path with
  | error _ => rfl
  | ok node => cases node <;> rfl

/-! ## Writing files -/

/-- A file that is written keeps its permission to be executed; a new one has none. -/
def executableOf : Option Node → Bool
  | some (.file _ executable) => executable
  | _ => false

theorem writeSpot_of_finds (hname : IsName (Bytes.ofString text)) (h : s.Finds p text d)
    (hshort : (Bytes.ofString text).length ≤ Route.nameLimit)
    (hlink : ∀ target, s.top.look (d ++ [Bytes.ofString text]) ≠ some (.link target)) :
    writeSpot (p / text).bytes s =
      (.ok (if (s.top.look (d ++ [Bytes.ofString text])).isSome
        then .taken (d ++ [Bytes.ofString text]) else .free d (Bytes.ofString text)), s) := by
  rw [writeSpot, run_bind, ask_eq, (Store.place_div_eq_ok hname).2 ⟨d, h, rfl⟩]
  simp only [run_bind, run_get, Store.locate_div hname h hshort fun _ => hlink]
  rfl

theorem emptyFile_of_finds (hname : IsName (Bytes.ofString text)) (h : s.Finds p text d)
    (hshort : (Bytes.ofString text).length ≤ Route.nameLimit)
    (hlink : ∀ target, s.top.look (d ++ [Bytes.ofString text]) ≠ some (.link target))
    (hdir : s.top.look (d ++ [Bytes.ofString text]) ≠ some .dir) :
    emptyFile (p / text).bytes s = (.ok (d ++ [Bytes.ofString text]),
      s.put d (Bytes.ofString text) (.file (.plain [])
        (executableOf (s.top.get? (d ++ [Bytes.ofString text]))))) := by
  rw [emptyFile, run_bind, writeSpot_of_finds hname h hshort hlink]
  rw [Node.look] at hdir hlink ⊢
  cases hnode : s.top.get? (d ++ [Bytes.ofString text]) with
  | none => rfl
  | some node =>
    simp only [Option.map_some, Option.isSome_some, if_true, run_bind, run_get, hnode]
    cases node with
    | link target => exact absurd (by rw [hnode]; rfl) (hlink target)
    | dir _ => exact absurd (by rw [hnode]; rfl) hdir
    | file _ executable =>
      simp [run_modify, run_pure, run_bind, Store.fill, hnode, executableOf]

theorem emptyFile_of_dir (hname : IsName (Bytes.ofString text)) (h : s.Finds p text d)
    (hshort : (Bytes.ofString text).length ≤ Route.nameLimit)
    (hdir : s.top.look (d ++ [Bytes.ofString text]) = some .dir) :
    emptyFile (p / text).bytes s = (.error (.os .isDirectory), s) := by
  obtain ⟨entries, hentries⟩ := Node.look_eq_dir.1 hdir
  rw [emptyFile, run_bind, writeSpot_of_finds hname h hshort (by simp [hdir]), hdir]
  simp only [Option.isSome_some, if_true, run_bind, run_get, hentries]
  rfl

theorem writeSpot_of_long (hname : IsName (Bytes.ofString text)) (h : s.Finds p text d)
    (hlong : ¬ (Bytes.ofString text).length ≤ Route.nameLimit) :
    ∃ fault, writeSpot (p / text).bytes s = (.error fault, s) ∧
      (s.top.look (d ++ [Bytes.ofString text]) = none → fault = .os .nameTooLong) := by
  rw [writeSpot, run_bind, ask_eq, (Store.place_div_eq_ok hname).2 ⟨d, h, rfl⟩]
  simp only [run_bind, run_get, Store.locate_of_long hname h true hlong]
  split
  · rename_i hslash
    refine ⟨_, rfl, fun hnone => ?_⟩
    simp [Store.leadsToSlash, Store.linkLimit, Node.look_eq_none.1 hnone] at hslash
  · exact ⟨_, rfl, fun _ => rfl⟩

/-- A file whose name is too long is not made. -/
theorem emptyFile_of_long (hname : IsName (Bytes.ofString text)) (h : s.Finds p text d)
    (hlong : ¬ (Bytes.ofString text).length ≤ Route.nameLimit)
    (hnone : s.top.look (d ++ [Bytes.ofString text]) = none) :
    emptyFile (p / text).bytes s = (.error (.os .nameTooLong), s) := by
  obtain ⟨fault, hfault, hwhich⟩ := writeSpot_of_long hname h hlong
  rw [emptyFile, run_bind, hfault, hwhich hnone]

/-- In a tree without links a file is emptied or made where no directory stands, or nothing happens. -/
theorem emptyFile_finds (hfree : s.top.LinkFree) (hname : IsName (Bytes.ofString text)) :
    (∃ fault, emptyFile (p / text).bytes s = (.error fault, s)) ∨
      ∃ d, s.Finds p text d ∧ (Bytes.ofString text).length ≤ Route.nameLimit ∧
        s.top.look (d ++ [Bytes.ofString text]) ≠ some .dir ∧
        emptyFile (p / text).bytes s = (.ok (d ++ [Bytes.ofString text]),
          s.put d (Bytes.ofString text) (.file (.plain [])
            (executableOf (s.top.get? (d ++ [Bytes.ofString text]))))) := by
  obtain ⟨fault, hfault⟩ | ⟨d, h, -⟩ := place_finds (s := s) (p := p) hname
  · refine .inl ⟨fault, ?_⟩
    rw [emptyFile, writeSpot, run_bind, run_bind, ask_eq, hfault]
  · by_cases hshort : (Bytes.ofString text).length ≤ Route.nameLimit
    · by_cases hdir : s.top.look (d ++ [Bytes.ofString text]) = some .dir
      · exact .inl ⟨_, emptyFile_of_dir hname h hshort hdir⟩
      · exact .inr ⟨d, h, hshort, hdir, emptyFile_of_finds hname h hshort (fun target => hfree _ target) hdir⟩
    · obtain ⟨fault, hfault, -⟩ := writeSpot_of_long hname h hshort
      rw [emptyFile, run_bind, hfault]
      exact .inl ⟨fault, rfl⟩

theorem writeFile_of_finds (hname : IsName (Bytes.ofString text)) (h : s.Finds p text d)
    (hshort : (Bytes.ofString text).length ≤ Route.nameLimit) (content : Content)
    (hlink : ∀ target, s.top.look (d ++ [Bytes.ofString text]) ≠ some (.link target))
    (hdir : s.top.look (d ++ [Bytes.ofString text]) ≠ some .dir) :
    writeFile (p / text).bytes content s =
      (.ok (), s.put d (Bytes.ofString text) (.file content
        (executableOf (s.top.get? (d ++ [Bytes.ofString text]))))) := by
  rw [writeFile, run_bind, emptyFile_of_finds hname h hshort hlink hdir]
  simp only [run_modify, Store.fill_put h.reaches.dir]

/-! ## Copying -/

/-- A file is copied where no directory stands; if it is not copied onto itself its copy holds what it
holds. -/
theorem copyFile_of_finds (hother : IsName (Bytes.ofString other)) (hsource : s.Finds q other e)
    (hsourceShort : (Bytes.ofString other).length ≤ Route.nameLimit)
    (hname : IsName (Bytes.ofString text)) (h : s.Finds p text d)
    (hshort : (Bytes.ofString text).length ≤ Route.nameLimit) {content : Content} {executable : Bool}
    (hcontent : s.top.look (e ++ [Bytes.ofString other]) = some (.file content executable))
    (hlink : ∀ target, s.top.look (d ++ [Bytes.ofString text]) ≠ some (.link target))
    (hdir : s.top.look (d ++ [Bytes.ofString text]) ≠ some .dir)
    (hne : e ++ [Bytes.ofString other] ≠ d ++ [Bytes.ofString text]) :
    copyFile (q / other).bytes (p / text).bytes s =
      (.ok (), s.put d (Bytes.ofString text) (.file content executable)) := by
  have horigin : s.placeOf true (q / other).bytes = .ok (e ++ [Bytes.ofString other]) := by
    rw [Store.placeOf, Store.locate_div hother hsource hsourceShort (by simp [hcontent]), hcontent]
    rfl
  have hkept : (s.top.put d (Bytes.ofString text) (.file (.plain [])
      (executableOf (s.top.get? (d ++ [Bytes.ofString text]))))).get? (e ++ [Bytes.ofString other]) =
        some (.file content executable) := by
    rw [← Node.look_eq_file, Node.look_put_elsewhere, hcontent]
    intro hat
    exact hne (Node.eq_of_isPrefix_of_look hdir hcontent hat)
  rw [Node.look_eq_file] at hcontent
  rw [copyFile, run_bind, ask_eq, horigin]
  simp only [run_bind, run_get, hcontent, emptyFile_of_finds hname h hshort hlink hdir, Store.top_put, hkept,
    run_modify, Store.replace_concat, Store.put_put]

/-- A copy is made where no directory stands, or nothing happens. -/
theorem copyFile_finds (source : Bytes) (hfree : s.top.LinkFree) (hname : IsName (Bytes.ofString text)) :
    (∃ fault, copyFile source (p / text).bytes s = (.error fault, s)) ∨
      ∃ d, s.Finds p text d ∧ (Bytes.ofString text).length ≤ Route.nameLimit ∧
        s.top.look (d ++ [Bytes.ofString text]) ≠ some .dir ∧
        ∃ content executable, copyFile source (p / text).bytes s =
          (.ok (), s.put d (Bytes.ofString text) (.file content executable)) := by
  rw [copyFile, run_bind, ask_eq]
  cases s.placeOf true source with
  | error fault => exact .inl ⟨fault, rfl⟩
  | ok origin =>
    simp only [run_bind, run_get]
    cases s.top.get? origin with
    | none => exact .inl ⟨_, rfl⟩
    | some node =>
      cases node with
      | link _ => exact .inl ⟨_, rfl⟩
      | dir _ => exact .inl ⟨_, rfl⟩
      | file _ executable =>
        obtain ⟨fault, hfault⟩ | ⟨d, h, hshort, hdir, hempty⟩ := emptyFile_finds (p := p) hfree hname
        · simp only [run_bind, hfault]
          exact .inl ⟨fault, rfl⟩
        · refine .inr ⟨d, h, hshort, hdir, ?_⟩
          simp only [run_bind, hempty, run_get, run_modify, Store.replace_concat, Store.put_put]
          exact ⟨_, _, rfl⟩

/-! ## Renaming -/

/-- What is no directory takes the place of anything else that is none. -/
theorem mayReplace_eq_ok_of_not_dir {n node : Node} {place : List Name} (hnode : node.isDir = false) :
    mayReplace node (n.get? place) = .ok () ↔ n.look place ≠ some .dir := by
  cases hold : n.get? place with
  | none => simp [mayReplace, Node.look_eq_none.2 hold]
  | some old => cases old <;> simp [mayReplace, hnode, Node.look_of_get? hold, Node.sight]

/-- No directory takes the place of a link. -/
theorem not_isDir_of_mayReplace_link {n node : Node} {place : List Name} {target : Bytes}
    (hlink : n.look place = some (.link target)) (h : mayReplace node (n.get? place) = .ok ()) :
    node.isDir = false := by
  rw [Node.look_eq_link.1 hlink] at h
  cases hdir : node.isDir with
  | false => rfl
  | true => simp [mayReplace, hdir] at h

/-- An entry of the directory `e` may be moved to an entry of the directory `d`: neither place is above the
other's directory, and what stands at the destination gives way. -/
structure Carries (s : Store) (q : Path) (other : String) (e : List Name) (p : Path) (text : String)
    (d : List Name) (node : Node) : Prop where
  source : s.Finds q other e
  sourceShort : (Bytes.ofString other).length ≤ Route.nameLimit
  dest : s.Finds p text d
  destShort : (Bytes.ofString text).length ≤ Route.nameLimit
  found : s.top.get? (e ++ [Bytes.ofString other]) = some node
  down : ¬ e ++ [Bytes.ofString other] <+: d
  up : ¬ d ++ [Bytes.ofString text] <+: e
  ne : e ++ [Bytes.ofString other] ≠ d ++ [Bytes.ofString text]
  mayReplace : mayReplace node (s.top.get? (d ++ [Bytes.ofString text])) = .ok ()

/-- An entry may be moved from one absolute path to another. -/
structure Moves (s : Store) (q : Path) (other : String) (p : Path) (text : String) (node : Node) :
    Prop where
  source : s.Names q other
  dest : s.Names p text
  found : s.top.get? (q.place ++ [Bytes.ofString other]) = some node
  down : ¬ q.place ++ [Bytes.ofString other] <+: p.place
  up : ¬ p.place ++ [Bytes.ofString text] <+: q.place
  ne : q.place ++ [Bytes.ofString other] ≠ p.place ++ [Bytes.ofString text]
  mayReplace : mayReplace node (s.top.get? (p.place ++ [Bytes.ofString text])) = .ok ()

theorem Carries.moves {node : Node} (hfree : s.top.LinkFree) (hq : q.isAbsolute = true)
    (hp : p.isAbsolute = true) (h : Carries s q other e p text d node) :
    Moves s q other p text node ∧ e = q.place ∧ d = p.place := by
  obtain ⟨hsource, rfl⟩ := h.source.names hfree hq h.sourceShort
  obtain ⟨hdest, rfl⟩ := h.dest.names hfree hp h.destShort
  exact ⟨⟨hsource, hdest, h.found, h.down, h.up, h.ne, h.mayReplace⟩, rfl, rfl⟩

/-- A rename of one entry to another, by the checks it makes in turn. -/
theorem rename_of_places {source dest : Bytes} {a b : Name} {slash slash' : Bool} {node : Node}
    (hsource : s.place source = .ok ⟨e, .name a, slash⟩) (hdest : s.place dest = .ok ⟨d, .name b, slash'⟩)
    (hshort : a.length ≤ Route.nameLimit) (hshort' : b.length ≤ Route.nameLimit)
    (hfound : s.top.get? (e ++ [a]) = some node) :
    rename source dest s =
      if !node.isDir && (slash || slash') then (.error (.os .notDirectory), s)
      else if (e ++ [a]).isPrefixOf d then (.error (.os .invalidArgument), s)
      else if (d ++ [b]).isPrefixOf e then (.error (.os .directoryNotEmpty), s)
      else if e ++ [a] = d ++ [b] then (.ok (), s)
      else
        match mayReplace node (s.top.get? (d ++ [b])) with
        | .error e => (.error (.os e), s)
        | .ok () => (.ok (), (s.drop e a).put d b node) := by
  rw [rename, run_bind, ask_eq, hsource]
  simp only [run_bind, ask_eq, hdest, entry_eq hshort, hfound, entry_eq hshort']
  split
  · rfl
  · split
    · rfl
    · split
      · rfl
      · split
        · rfl
        · cases mayReplace node (s.top.get? (d ++ [b])) <;> rfl

/-- Nothing is renamed unless both paths name entries, and something stands at the first. -/
theorem rename_names (source dest : Bytes) (s : Store) :
    (∃ fault, rename source dest s = (.error fault, s)) ∨
      ∃ e a slash d b slash' node, s.place source = .ok ⟨e, .name a, slash⟩ ∧
        s.place dest = .ok ⟨d, .name b, slash'⟩ ∧ a.length ≤ Route.nameLimit ∧ b.length ≤ Route.nameLimit ∧
          s.top.get? (e ++ [a]) = some node := by
  rw [rename, run_bind, ask_eq]
  cases hsource : s.place source with
  | error fault => exact .inl ⟨fault, rfl⟩
  | ok found =>
    simp only [run_bind, ask_eq]
    cases hdest : s.place dest with
    | error fault => exact .inl ⟨fault, rfl⟩
    | ok goal =>
      obtain ⟨e, last, slash⟩ := found
      obtain ⟨d, last', slash'⟩ := goal
      cases last with
      | fixed _ => exact .inl ⟨_, rfl⟩
      | name a =>
        cases last' with
        | fixed _ => exact .inl ⟨_, rfl⟩
        | name b =>
          simp only [run_bind]
          by_cases hshort : a.length ≤ Route.nameLimit
          · rw [entry_eq hshort]
            cases hfound : s.top.get? (e ++ [a]) with
            | none => exact .inl ⟨_, rfl⟩
            | some node =>
              simp only [run_bind]
              by_cases hshort' : b.length ≤ Route.nameLimit
              · exact .inr ⟨e, a, slash, d, b, slash', node, rfl, rfl, hshort, hshort', hfound⟩
              · rw [entry_of_long hshort']
                exact .inl ⟨_, rfl⟩
          · rw [entry_of_long hshort]
            exact .inl ⟨_, rfl⟩

/-- An entry is moved, or found to be where it is moved to, or nothing happens. -/
theorem rename_cases (source dest : Bytes) (s : Store) :
    (∃ fault, rename source dest s = (.error fault, s)) ∨
      ∃ e a slash d b slash' node, s.place source = .ok ⟨e, .name a, slash⟩ ∧
        s.place dest = .ok ⟨d, .name b, slash'⟩ ∧ a.length ≤ Route.nameLimit ∧ b.length ≤ Route.nameLimit ∧
          s.top.get? (e ++ [a]) = some node ∧
            (e ++ [a] = d ++ [b] ∧ rename source dest s = (.ok (), s) ∨
              ¬ e ++ [a] <+: d ∧ ¬ d ++ [b] <+: e ∧ e ++ [a] ≠ d ++ [b] ∧
                mayReplace node (s.top.get? (d ++ [b])) = .ok () ∧
                rename source dest s = (.ok (), (s.drop e a).put d b node)) := by
  obtain hrefused | ⟨e, a, slash, d, b, slash', node, hsource, hdest, hshort, hshort', hfound⟩ :=
    rename_names source dest s
  · exact .inl hrefused
  · have hrename := rename_of_places hsource hdest hshort hshort' hfound
    split at hrename
    · exact .inl ⟨_, hrename⟩
    · split at hrename
      · exact .inl ⟨_, hrename⟩
      · rename_i hdown
        rw [List.isPrefixOf_iff_prefix] at hdown
        split at hrename
        · exact .inl ⟨_, hrename⟩
        · rename_i hup
          rw [List.isPrefixOf_iff_prefix] at hup
          split at hrename
          · rename_i heq
            exact .inr ⟨e, a, slash, d, b, slash', node, hsource, hdest, hshort, hshort', hfound, .inl ⟨heq, hrename⟩⟩
          · rename_i hne
            cases hreplace : mayReplace node (s.top.get? (d ++ [b])) with
            | error fault =>
              rw [hreplace] at hrename
              exact .inl ⟨_, hrename⟩
            | ok _ =>
              rw [hreplace] at hrename
              exact .inr ⟨e, a, slash, d, b, slash', node, hsource, hdest, hshort, hshort', hfound,
                .inr ⟨hdown, hup, hne, hreplace, hrename⟩⟩

theorem rename_of_finds (hother : IsName (Bytes.ofString other)) (hsource : s.Finds q other e)
    (hsourceShort : (Bytes.ofString other).length ≤ Route.nameLimit)
    (hname : IsName (Bytes.ofString text)) (hdest : s.Finds p text d)
    (hdestShort : (Bytes.ofString text).length ≤ Route.nameLimit) {node : Node}
    (hfound : s.top.get? (e ++ [Bytes.ofString other]) = some node)
    (hdown : ¬ e ++ [Bytes.ofString other] <+: d) (hup : ¬ d ++ [Bytes.ofString text] <+: e)
    (hne : e ++ [Bytes.ofString other] ≠ d ++ [Bytes.ofString text])
    (hreplace : mayReplace node (s.top.get? (d ++ [Bytes.ofString text])) = .ok ()) :
    rename (q / other).bytes (p / text).bytes s =
      (.ok (), (s.drop e (Bytes.ofString other)).put d (Bytes.ofString text) node) := by
  have hsource' := (Store.place_div_eq_ok hother).2 ⟨e, hsource, rfl⟩
  have hdest' := (Store.place_div_eq_ok hname).2 ⟨d, hdest, rfl⟩
  rw [← List.isPrefixOf_iff_prefix, Bool.not_eq_true] at hdown hup
  rw [rename_of_places hsource' hdest' hsourceShort hdestShort hfound]
  simp [hdown, hup, hne, hreplace]

theorem rename_of_carries (hother : IsName (Bytes.ofString other)) (hname : IsName (Bytes.ofString text))
    {node : Node} (h : Carries s q other e p text d node) :
    rename (q / other).bytes (p / text).bytes s =
      (.ok (), (s.drop e (Bytes.ofString other)).put d (Bytes.ofString text) node) :=
  rename_of_finds hother h.source h.sourceShort hname h.dest h.destShort h.found h.down h.up h.ne h.mayReplace

/-- An entry is moved to where nothing stands, unless that is inside the entry. -/
theorem rename_of_free (hother : IsName (Bytes.ofString other)) (hsource : s.Finds q other e)
    (hsourceShort : (Bytes.ofString other).length ≤ Route.nameLimit)
    (hname : IsName (Bytes.ofString text)) (hdest : s.Finds p text d)
    (hdestShort : (Bytes.ofString text).length ≤ Route.nameLimit) {node : Node}
    (hfound : s.top.get? (e ++ [Bytes.ofString other]) = some node)
    (hnone : s.top.look (d ++ [Bytes.ofString text]) = none) (hdown : ¬ e ++ [Bytes.ofString other] <+: d) :
    rename (q / other).bytes (p / text).bytes s =
      (.ok (), (s.drop e (Bytes.ofString other)).put d (Bytes.ofString text) node) := by
  refine rename_of_finds hother hsource hsourceShort hname hdest hdestShort hfound hdown (fun hup => ?_)
    (fun heq => ?_) ?_
  · exact Node.not_isPrefix_of_free hnone hsource.reaches.dir hup
  · rw [← heq, Node.look_eq_none, hfound] at hnone
    cases hnone
  · rw [Node.look_eq_none.1 hnone]
    rfl

/-- An entry is moved, or found to be where it is moved to, or nothing happens. -/
theorem rename_finds (hother : IsName (Bytes.ofString other)) (hname : IsName (Bytes.ofString text)) :
    (∃ fault, rename (q / other).bytes (p / text).bytes s = (.error fault, s)) ∨
      (∃ d, s.Finds p text d ∧ (Bytes.ofString text).length ≤ Route.nameLimit ∧
        s.top.look (d ++ [Bytes.ofString text]) ≠ none ∧
        (∃ e, s.Finds q other e ∧ e ++ [Bytes.ofString other] = d ++ [Bytes.ofString text]) ∧
        rename (q / other).bytes (p / text).bytes s = (.ok (), s)) ∨
      ∃ e d node, Carries s q other e p text d node := by
  obtain hrefused | ⟨e, a, slash, d, b, slash', node, hsource, hdest, hshort, hshort', hfound, hmoved⟩ :=
    rename_cases (q / other).bytes (p / text).bytes s
  · exact .inl hrefused
  · obtain ⟨_, hsourceFinds, heq⟩ := (Store.place_div_eq_ok hother).1 hsource
    cases heq
    obtain ⟨_, hdestFinds, heq⟩ := (Store.place_div_eq_ok hname).1 hdest
    cases heq
    obtain ⟨heq, hrename⟩ | ⟨hdown, hup, hne, hreplace, -⟩ := hmoved
    · refine .inr (.inl ⟨d, hdestFinds, hshort', ?_, ⟨e, hsourceFinds, heq⟩, hrename⟩)
      rw [← heq, Node.look, hfound]
      simp
    · exact .inr (.inr ⟨e, d, node, hsourceFinds, hshort, hdestFinds, hshort', hfound, hdown, hup, hne, hreplace⟩)

/-- What a rename that succeeds has done. -/
theorem rename_eq_ok (hfree : s.top.LinkFree) (hq : q.isAbsolute = true) (hp : p.isAbsolute = true)
    (hother : IsName (Bytes.ofString other)) (hname : IsName (Bytes.ofString text))
    (hne : q.place ++ [Bytes.ofString other] ≠ p.place ++ [Bytes.ofString text]) {t : Store}
    (h : rename (q / other).bytes (p / text).bytes s = (.ok (), t)) :
    ∃ node, Moves s q other p text node ∧
      t = (s.drop q.place (Bytes.ofString other)).put p.place (Bytes.ofString text) node := by
  obtain ⟨fault, hfault⟩ | ⟨d, hdest, hshort, -, ⟨e, hsource, heq⟩, -⟩ | ⟨e, d, node, hcarries⟩ :=
    rename_finds (s := s) (q := q) (p := p) hother hname
  · rw [hfault] at h
    cases (outcome_inj.1 h).1
  · refine absurd ?_ hne
    rw [← (Store.opens_of_reaches hfree hq hsource.no_nul hsource.reaches).2,
      ← (hdest.names hfree hp hshort).2, heq]
  · rw [rename_of_carries hother hname hcarries] at h
    obtain ⟨hmoves, rfl, rfl⟩ := hcarries.moves hfree hq hp
    exact ⟨node, hmoves, (outcome_inj.1 h).2.symm⟩

/-! ## Removing directories -/

theorem removeDir_of_finds (hname : IsName (Bytes.ofString text)) (h : s.Finds p text d)
    (hshort : (Bytes.ofString text).length ≤ Route.nameLimit)
    (hempty : s.top.get? (d ++ [Bytes.ofString text]) = some .emptyDir) :
    removeDir (p / text).bytes s = (.ok (), s.drop d (Bytes.ofString text)) := by
  rw [removeDir, run_bind, ask_eq, (Store.place_div_eq_ok hname).2 ⟨d, h, rfl⟩]
  simp only [run_bind, entry_eq hshort, hempty, Node.emptyDir]
  rfl

/-- An empty directory is removed, or nothing happens. -/
theorem removeDir_finds (hname : IsName (Bytes.ofString text)) :
    (∃ fault, removeDir (p / text).bytes s = (.error fault, s)) ∨
      ∃ d, s.Finds p text d ∧ (Bytes.ofString text).length ≤ Route.nameLimit ∧
        s.top.get? (d ++ [Bytes.ofString text]) = some .emptyDir := by
  rw [removeDir, run_bind, ask_eq]
  obtain ⟨fault, hfault⟩ | ⟨d, h, hplace⟩ := place_finds (s := s) (p := p) hname
  · rw [hfault]
    exact .inl ⟨fault, rfl⟩
  · rw [hplace]
    simp only [run_bind]
    by_cases hshort : (Bytes.ofString text).length ≤ Route.nameLimit
    · rw [entry_eq hshort]
      cases hentry : s.top.get? (d ++ [Bytes.ofString text]) with
      | none => exact .inl ⟨_, rfl⟩
      | some node =>
        cases node with
        | file _ _ => exact .inl ⟨_, rfl⟩
        | link _ => exact .inl ⟨_, rfl⟩
        | dir entries =>
          cases entries with
          | nil => exact .inr ⟨d, h, hshort, hentry⟩
          | cons _ _ => exact .inl ⟨_, rfl⟩
    · rw [entry_of_long hshort]
      exact .inl ⟨_, rfl⟩

/-- A tree is removed by a path that does not lead through it. -/
theorem removeTree_of_finds (hname : IsName (Bytes.ofString text)) (h : s.Finds p text d)
    (hshort : (Bytes.ofString text).length ≤ Route.nameLimit)
    (hdir : s.top.look (d ++ [Bytes.ofString text]) = some .dir)
    (hkeep : (s.put d (Bytes.ofString text) .emptyDir).Reaches p d) :
    removeTree (p / text).bytes s = (.ok (), s.drop d (Bytes.ofString text)) := by
  obtain ⟨entries, hentries⟩ := Node.look_eq_dir.1 hdir
  have hplace : s.placeOf false (p / text).bytes = .ok (d ++ [Bytes.ofString text]) := by
    rw [Store.placeOf, Store.locate_div hname h hshort (by simp), hdir]
    rfl
  have hempty : (s.put d (Bytes.ofString text) .emptyDir).top.get? (d ++ [Bytes.ofString text]) =
      some .emptyDir :=
    Node.get?_put_self h.reaches.dir _ _
  rw [removeTree, run_bind, ask_eq, hplace]
  simp only [run_bind, run_get, hentries, run_modify, Store.replace_concat, run_tryCatch,
    removeDir_of_finds hname ⟨hkeep, h.no_nul, h.fits⟩ hshort hempty, Store.drop_put]

end Files

end StubRelease
