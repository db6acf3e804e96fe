/-
# StubRelease.Proofs.Tree.Houses -- working inside a directory

`Store.EditedIn` says where a store was edited, whether there are links in it or not. A path houses a
directory when it leads there as long as the directory stands, whatever is edited in some region of the
store, and is so short that names can be added to it (`Store.Houses`). What is done to the entries of a
housed directory then depends on what stands at them and on nothing else; the path of one of its entries
that is a directory houses that one in turn (`Houses.div`).
-/
import StubRelease.Proofs.Tree.Growth

namespace StubRelease

open Sequence Node
open Route (hopsOf)

/-! ## Places below some entries -/

/-- Of two directories neither of which is above the other, a place is inside one at most. -/
theorem not_isPrefix_of_apart {d r p : List Name} (hdown : ¬ d <+: r) (hup : ¬ r <+: d) (hp : d <+: p) :
    ¬ r <+: p := by
  intro hr
  rcases List.prefix_or_prefix_of_prefix hp hr with h | h
  · exact hdown h
  · exact hup h

/-- The places at or below some entries of a directory. -/
def Below (d : List Name) (names : List Name) (p : List Name) : Prop := ∃ name ∈ names, d ++ [name] <+: p

namespace Below

variable {d p : List Name} {names more : List Name} {name : Name}

theorem inside (h : Below d names p) : Inside d p := by
  obtain ⟨name, -, hat⟩ := h
  exact inside_of_entry hat

theorem mono (hnames : ∀ name ∈ names, name ∈ more) (h : Below d names p) : Below d more p := by
  obtain ⟨name, hname, hat⟩ := h
  exact ⟨name, hnames name hname, hat⟩

theorem of_entry (hname : name ∈ names) (h : d ++ [name] <+: p) : Below d names p := ⟨name, hname, h⟩

/-- A place below one entry is below no other. -/
theorem not_of_entry (hname : name ∉ names) (h : d ++ [name] <+: p) : ¬ Below d names p := by
  rintro ⟨other, hother, hat⟩
  exact hname (entry_isPrefix_inj h hat ▸ hother)

end Below

namespace Node

/-- An edit below a place is an edit of what stands there. -/
theorem get?_editDir_below (edit : Listing Node → Listing Node) {place : List Name} (rest : List Name)
    {n m : Node} (h : n.get? place = some m) :
    (editDir edit (place ++ rest) n).get? place = some (editDir edit rest m) := by
  induction place generalizing n with
  | nil =>
    rw [get?_nil] at h
    obtain rfl := Option.some.inj h
    rw [List.nil_append, get?_nil]
  | cons name place ih =>
    cases n with
    | file _ _ => cases h
    | link _ => cases h
    | dir entries =>
      rw [get?_dir_cons] at h
      cases hchild : Listing.find? name entries with
      | none => simp [hchild] at h
      | some child =>
        rw [hchild, Option.bind_some] at h
        simp only [List.cons_append, editDir, hchild, get?_dir_cons, Listing.find?_put_self,
          Option.bind_some, ih h]

theorem get?_put_below {place : List Name} (rest : List Name) (name : Name) (child : Node) {n m : Node}
    (h : n.get? place = some m) :
    (n.put (place ++ rest) name child).get? place = some (m.put rest name child) :=
  get?_editDir_below _ rest h

theorem get?_drop_below {place : List Name} (rest : List Name) (name : Name) {n m : Node}
    (h : n.get? place = some m) : (n.drop (place ++ rest) name).get? place = some (m.drop rest name) :=
  get?_editDir_below _ rest h

end Node

namespace Store

/-! ## Where a store was edited -/

/-- The second store is the first one after edits at some of the places in `P` only. -/
structure EditedIn (P : List Name → Prop) (s t : Store) : Prop where
  cwd : t.cwd = s.cwd
  look : ∀ p, ¬ P p → t.top.look p = s.top.look p
  get? : ∀ p, (∀ q, p <+: q → ¬ P q) → t.top.get? p = s.top.get? p

namespace EditedIn

variable {P Q : List Name → Prop} {s t u : Store} {d : List Name} {name : Name}

theorem refl (s : Store) : EditedIn P s s := ⟨rfl, fun _ _ => rfl, fun _ _ => rfl⟩

theorem trans (h : EditedIn P s t) (h' : EditedIn P t u) : EditedIn P s u where
  cwd := h'.cwd.trans h.cwd
  look p hp := (h'.look p hp).trans (h.look p hp)
  get? p hp := (h'.get? p hp).trans (h.get? p hp)

theorem mono (hPQ : ∀ p, P p → Q p) (h : EditedIn P s t) : EditedIn Q s t where
  cwd := h.cwd
  look p hp := h.look p fun hP => hp (hPQ p hP)
  get? p hp := h.get? p fun q hq hP => hp q hq (hPQ q hP)

theorem put (s : Store) (d : List Name) (name : Name) (child : Node) :
    EditedIn (Below d [name]) s (s.put d name child) where
  cwd := rfl
  look p hp := look_put_elsewhere _ _ fun hat => hp (.of_entry List.mem_cons_self hat)
  get? p hp := by
    refine get?_put_elsewhere _ _ (fun habove => ?_) fun hat =>
      hp p List.prefix_rfl (.of_entry List.mem_cons_self hat)
    exact hp _ (habove.trans (List.prefix_append d [name])) (.of_entry List.mem_cons_self List.prefix_rfl)

theorem drop (s : Store) (d : List Name) (name : Name) : EditedIn (Below d [name]) s (s.drop d name) where
  cwd := rfl
  look p hp := look_drop_elsewhere _ fun hat => hp (.of_entry List.mem_cons_self hat)
  get? p hp := by
    refine get?_drop_elsewhere _ (fun habove => ?_) fun hat =>
      hp p List.prefix_rfl (.of_entry List.mem_cons_self hat)
    exact hp _ (habove.trans (List.prefix_append d [name])) (.of_entry List.mem_cons_self List.prefix_rfl)

/-- Directories and links stay if there was nothing where the store was edited. -/
theorem keepsWays (h : EditedIn P s t) (hfree : ∀ p, P p → s.top.look p = none) :
    s.top.KeepsWays t.top := by
  have hstays (p : List Name) (seen : Sight) (hp : s.top.look p = some seen) : t.top.look p = some seen := by
    rw [h.look p, hp]
    intro hP
    rw [hfree p hP] at hp
    cases hp
  exact ⟨fun p => hstays p .dir, fun p target => hstays p (.link target)⟩

/-- Edits at some entries are not seen at another one, nor below it. -/
theorem look_entry {names : List Name} (h : EditedIn (Below d names) s t) (hname : name ∉ names)
    (rest : List Name) : t.top.look (d ++ name :: rest) = s.top.look (d ++ name :: rest) :=
  h.look _ (Below.not_of_entry hname ⟨rest, by simp⟩)

theorem get?_entry {names : List Name} (h : EditedIn (Below d names) s t) (hname : name ∉ names)
    (rest : List Name) : t.top.get? (d ++ name :: rest) = s.top.get? (d ++ name :: rest) := by
  refine h.get? _ fun q hq => Below.not_of_entry hname (List.IsPrefix.trans ⟨rest, ?_⟩ hq)
  simp

end EditedIn

/-! ## Housed directories -/

/-- A path leads to a directory that stands, whatever is edited in the region `P`, and names shorter than
`room` can be looked up there. The region holds all that is inside the directory. -/
structure Houses (s : Store) (P : List Name → Prop) (p : Path) (d : List Name) (room : Nat) : Prop where
  no_nul : (0 : UInt8) ∉ p.bytes
  fits : p.bytes.length + room < Route.lengthLimit
  short : room ≤ Route.nameLimit + 1
  inside : ∀ q, Inside d q → P q
  dir : s.top.look d = some .dir
  reaches : ∀ t, s.EditedIn P t → t.top.look d = some .dir → t.Reaches p d

namespace Houses

variable {P : List Name → Prop} {s t : Store} {p : Path} {d : List Name} {room : Nat} {text : String}

theorem here (h : s.Houses P p d room) : s.Reaches p d := h.reaches s (.refl s) h.dir

theorem after (h : s.Houses P p d room) (hedited : s.EditedIn P t) (hdir : t.top.look d = some .dir) :
    t.Houses P p d room :=
  ⟨h.no_nul, h.fits, h.short, h.inside, hdir, fun u hu => h.reaches u (hedited.trans hu)⟩

theorem after_inside (h : s.Houses P p d room) (hedited : s.EditedIn (Inside d) t) :
    t.Houses P p d room := by
  refine h.after (hedited.mono h.inside) ?_
  rw [hedited.look _ (not_inside_self _), h.dir]

theorem after_below (h : s.Houses P p d room) {names : List Name} (hedited : s.EditedIn (Below d names) t) :
    t.Houses P p d room :=
  h.after_inside (hedited.mono fun _ => Below.inside)

theorem shorter (h : s.Houses P p d room) (hroom : (Bytes.ofString text).length < room) :
    (Bytes.ofString text).length ≤ Route.nameLimit :=
  Nat.le_of_lt_succ (Nat.lt_of_lt_of_le hroom h.short)

variable (hname : IsName (Bytes.ofString text))

include hname

theorem finds (h : s.Houses P p d room) (hroom : (Bytes.ofString text).length < room) :
    s.Finds p text d := by
  refine ⟨h.here, h.no_nul, ?_⟩
  have hlength := Path.length_bytes_div_le (p := p) hname
  have hfits := h.fits
  omega

/-- The path of an entry that is a directory houses it. -/
theorem div (h : s.Houses P p d room) {room' : Nat} (hroom : (Bytes.ofString text).length + room' < room)
    (hdir : s.top.look (d ++ [Bytes.ofString text]) = some .dir) :
    s.Houses P (p / text) (d ++ [Bytes.ofString text]) room' where
  no_nul := by
    rw [Path.mem_bytes_div hname]
    exact h.no_nul
  fits := by
    have hlength := Path.length_bytes_div_le (p := p) hname
    have hfits := h.fits
    omega
  short := by
    have hshort := h.short
    omega
  inside q hq := h.inside q (inside_of_isPrefix (List.prefix_append _ _) hq)
  dir := hdir
  reaches t hedited hstands :=
    reaches_div hname (h.reaches t hedited (look_eq_dir_of_below hstands)) (h.shorter (by omega)) hstands

end Houses

end Store

/-! ## Operations on the entries of a housed directory -/

namespace Node

/-- Nothing stands at a place, or a file, which can be written over. -/
def Writable (n : Node) (place : List Name) : Prop :=
  n.look place = none ∨ ∃ content executable, n.look place = some (.file content executable)

theorem Writable.ne_dir {n : Node} {place : List Name} (h : n.Writable place) : n.look place ≠ some .dir := by
  rcases h with h | ⟨_, _, h⟩ <;> simp [h]

theorem Writable.ne_link {n : Node} {place : List Name} (h : n.Writable place) (target : Bytes) :
    n.look place ≠ some (.link target) := by
  rcases h with h | ⟨_, _, h⟩ <;> simp [h]

end Node

/-- Above an entry of an entry is that one. -/
theorem Route.parent?_div {p : Path} {text other : String} (hname : IsName (Bytes.ofString text))
    (hother : IsName (Bytes.ofString other)) :
    (ofBytes (p / text / other).bytes).parent? = some (ofBytes (p / text).bytes) := by
  rw [ofBytes_div hother, Path.hopsOf_div hname, ofBytes_div hname]
  simp [parent?]

/-- Where the directory above is missing, it is made first. -/
theorem Files.makeDirsAlong_of_notFound {s t : Store} {r above : Route} {n : Nat}
    (hmissing : makeDirAlong r s = (.error (.os .notFound), s)) (habove : r.parent? = some above)
    (hhops : (above.absolute || !above.hops.isEmpty) = true) (hmade : makeDirsAlong n above s = (.ok (), t)) :
    makeDirsAlong (n + 1) r s = ensureDirAlong r t := by
  have hfault : IoFault.os .notFound = .notFound := rfl
  rw [makeDirsAlong, run_tryCatch, hmissing]
  simp only [hfault, habove, hhops, if_true, run_bind, hmade]

namespace Store

variable {P : List Name → Prop} {s : Store} {p q : Path} {d e : List Name} {room room' : Nat}
  {text other : String}

/-- Nothing can be made in a directory that is missing. -/
theorem Reaches.makeDirAlong_of_missing (h : s.Reaches p d) (hname : IsName (Bytes.ofString text))
    (hother : IsName (Bytes.ofString other)) (hshort : (Bytes.ofString text).length ≤ Route.nameLimit)
    (hnone : s.top.look (d ++ [Bytes.ofString text]) = none) :
    Files.makeDirAlong (Route.ofBytes (p / text / other).bytes) s = (.error (.os .notFound), s) := by
  have hroute := Route.ofBytes_div (p := p / text) hother
  rw [Route.ofBytes_div hname, Path.hopsOf_div hname] at hroute
  have hwalk : walk s.top true linkLimit (s.origin ⟨(Route.ofBytes p.bytes).absolute,
      hopsOf p.bytes ++ [.into (Bytes.ofString text)] ++ [.into (Bytes.ofString other)], false⟩)
      (hopsOf p.bytes ++ [.into (Bytes.ofString text)]) = .ok (.free d (Bytes.ofString text)) := by
    have hlink : true = true → ∀ target, s.top.look (d ++ [Bytes.ofString text]) ≠ some (.link target) := by
      simp [hnone]
    have hfollow := follow_div hname h hshort hlink
    rw [hnone, follow, Route.ofBytes_div hname] at hfollow
    exact hfollow
  simp only [Files.makeDirAlong, run_bind, run_get, placeOfRoute, hroute, List.dropLast_concat, hwalk]
  rfl

/-- A directory is made, or found. What stands below it stays. -/
theorem Finds.makeDirs (hname : IsName (Bytes.ofString text)) (h : s.Finds p text d)
    (hshort : (Bytes.ofString text).length ≤ Route.nameLimit)
    (hentry : s.top.look (d ++ [Bytes.ofString text]) = none ∨
      s.top.look (d ++ [Bytes.ofString text]) = some .dir) :
    ∃ t, Files.makeDirs (p / text).bytes s = (.ok (), t) ∧
      s.EditedIn (Below d [Bytes.ofString text]) t ∧
      t.top.look (d ++ [Bytes.ofString text]) = some .dir ∧
      ∀ name rest, t.top.get? (d ++ Bytes.ofString text :: name :: rest) =
        s.top.get? (d ++ Bytes.ofString text :: name :: rest) := by
  rw [Files.makeDirs_of_finds hname h hshort (by rcases hentry with hentry | hentry <;> simp [hentry])]
  rcases hentry with hnone | hdir
  · rw [hnone]
    refine ⟨_, rfl, .put s d _ .emptyDir, look_put h.reaches.dir _ _ [], fun name rest => ?_⟩
    have hbelow : s.top.look (d ++ [Bytes.ofString text] ++ name :: rest) = none :=
      look_below_of_not_dir (by simp [hnone]) name rest
    rw [List.append_assoc, List.singleton_append, look_eq_none] at hbelow
    rw [hbelow, top_put, get?_put h.reaches.dir]
    rfl
  · rw [hdir]
    exact ⟨s, rfl, .refl s, hdir, fun _ _ => rfl⟩

namespace Houses

theorem writeFile (h : s.Houses P p d room) (hname : IsName (Bytes.ofString text))
    (hroom : (Bytes.ofString text).length < room) (content : Content)
    (hover : s.top.Writable (d ++ [Bytes.ofString text])) :
    ∃ t, Files.writeFile (p / text).bytes content s = (.ok (), t) ∧
      s.EditedIn (Below d [Bytes.ofString text]) t ∧ t.top.Writable (d ++ [Bytes.ofString text]) ∧
      (s.top.Plain → t.top.Plain) := by
  rw [Files.writeFile_of_finds hname (h.finds hname hroom) (h.shorter hroom) content hover.ne_link hover.ne_dir]
  exact ⟨_, rfl, .put s d _ _, .inr ⟨_, _, look_put h.dir _ _ []⟩, fun hs => hs.put _ hname (.file _ _)⟩

theorem copyFile (h : s.Houses P p d room) (hname : IsName (Bytes.ofString text))
    (hroom : (Bytes.ofString text).length < room) (hsource : s.Finds q text e) {content : Content}
    {executable : Bool} (hfile : s.top.look (e ++ [Bytes.ofString text]) = some (.file content executable))
    (hover : s.top.Writable (d ++ [Bytes.ofString text])) (hne : e ≠ d) :
    ∃ t, Files.copyFile (q / text).bytes (p / text).bytes s = (.ok (), t) ∧
      s.EditedIn (Below d [Bytes.ofString text]) t ∧ t.top.Writable (d ++ [Bytes.ofString text]) := by
  rw [Files.copyFile_of_finds hname hsource (h.shorter hroom) hname (h.finds hname hroom) (h.shorter hroom)
    hfile hover.ne_link hover.ne_dir fun heq => hne (List.append_inj_left' heq rfl)]
  exact ⟨_, rfl, .put s d _ _, .inr ⟨_, _, look_put h.dir _ _ []⟩⟩

/-- A directory is made in one that is missing too. -/
theorem makeDirs_of_missing (h : s.Houses P p d room) (hname : IsName (Bytes.ofString text))
    (hother : IsName (Bytes.ofString other))
    (hroom : (Bytes.ofString text).length + (Bytes.ofString other).length + 1 < room)
    (hnone : s.top.look (d ++ [Bytes.ofString text]) = none) :
    Files.makeDirs (p / text / other).bytes s = (.ok (),
      (s.put d (Bytes.ofString text) .emptyDir).put (d ++ [Bytes.ofString text]) (Bytes.ofString other)
        .emptyDir) := by
  have hshort : (Bytes.ofString text).length ≤ Route.nameLimit := h.shorter (by omega)
  have hotherShort : (Bytes.ofString other).length ≤ Route.nameLimit := h.shorter (by omega)
  have hmade : (s.put d (Bytes.ofString text) .emptyDir).top.look (d ++ [Bytes.ofString text]) = some .dir :=
    look_put h.dir _ _ []
  have hhouse : (s.put d (Bytes.ofString text) .emptyDir).Houses P (p / text) (d ++ [Bytes.ofString text])
      ((Bytes.ofString other).length + 1) :=
    (h.after_below (.put s d _ .emptyDir)).div hname (by omega) hmade
  have hinner := hhouse.finds hother (by omega)
  -- the one above is made when the first attempt is refused
  have habove : Files.makeDirsAlong ((hopsOf p.bytes).length + 1) (Route.ofBytes (p / text).bytes) s =
      (.ok (), s.put d (Bytes.ofString text) .emptyDir) := by
    rw [Files.makeDirsAlong, run_tryCatch,
      Files.makeDirAlong_of_finds hname (h.finds hname (by omega)) hshort, look_eq_none.1 hnone]
  have hensures : Files.ensureDirAlong (Route.ofBytes (p / text / other).bytes)
      (s.put d (Bytes.ofString text) .emptyDir) = (.ok (), (s.put d (Bytes.ofString text) .emptyDir).put
        (d ++ [Bytes.ofString text]) (Bytes.ofString other) .emptyDir) := by
    have hfree : (s.put d (Bytes.ofString text) .emptyDir).top.get?
        (d ++ [Bytes.ofString text] ++ [Bytes.ofString other]) = none := by
      rw [List.append_assoc, List.singleton_append, top_put, get?_put h.dir]
      rfl
    rw [Files.ensureDirAlong, run_tryCatch, Files.makeDirAlong_of_finds hother hinner hotherShort, hfree]
  have hhops : (Route.ofBytes (p / text / other).bytes).hops.length = (hopsOf p.bytes).length + 1 + 1 := by
    rw [Route.ofBytes_div hother, Path.hopsOf_div hname]
    simp
  rw [Files.makeDirs, if_neg (Path.bytes_div_ne_nil hother), run_bind, Files.ask_eq,
    read_div hother hinner.no_nul hinner.fits]
  simp only [hhops]
  rw [Files.makeDirsAlong_of_notFound (h.here.makeDirAlong_of_missing hname hother hshort hnone)
    (Route.parent?_div hname hother) (by simp [Route.ofBytes_div hname]) habove, hensures]

end Houses

end Store

end StubRelease
