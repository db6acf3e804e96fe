/-
# StubRelease.Proofs.Tree.Growth -- making a directory and those above it

Making a directory with those above it lets the tree grow on the way of its path and does nothing else,
also when it is refused half way (`makeDirs_growsIn`); when it succeeds the path leads to a directory
(`opens_of_makeDirs`). Where the directory above exists already, one directory is made at most
(`makeDirs_of_finds`).
-/
import StubRelease.Proofs.Tree.Changes
import StubRelease.Proofs.Tree.Steps

namespace StubRelease

open Sequence
open Route (hopsOf)

/-! ## Names on a way -/

/-- A hop into an entry goes by a name. -/
def Hop.Proper : Hop → Prop
  | .into name => IsName name
  | _ => True

theorem Path.of_mem_pieces {α : Type} {sep : α → Bool} {as piece : List α}
    (h : piece ∈ Path.pieces sep as) : ∀ a ∈ piece, a ∈ as ∧ sep a = false := by
  induction as generalizing piece with
  | nil =>
    rw [Path.pieces, List.mem_singleton] at h
    simp [h]
  | cons b rest ih =>
    intro a ha
    rw [Path.pieces] at h
    cases hb : sep b with
    | true =>
      rw [hb, if_pos rfl] at h
      rcases List.mem_cons.1 h with rfl | h
      · cases ha
      · exact (ih h a ha).imp_left (List.mem_cons_of_mem b)
    | false =>
      simp only [hb, Bool.false_eq_true, if_false] at h
      cases hrest : Path.pieces sep rest with
      | nil => exact absurd hrest (Path.pieces_ne_nil sep rest)
      | cons first more =>
        simp only [hrest] at h
        rcases List.mem_cons.1 h with rfl | h
        · rcases List.mem_cons.1 ha with rfl | ha
          · exact ⟨List.mem_cons_self, hb⟩
          · exact (ih (hrest ▸ List.mem_cons_self) a ha).imp_left (List.mem_cons_of_mem b)
        · exact (ih (hrest ▸ List.mem_cons_of_mem first h) a ha).imp_left (List.mem_cons_of_mem b)

/-- The hops of a path without a zero byte go by names. -/
theorem Route.proper_of_mem_hopsOf {bs : Bytes} (hnul : (0 : UInt8) ∉ bs) {hop : Hop}
    (h : hop ∈ hopsOf bs) : hop.Proper := by
  obtain ⟨piece, hpiece, hhop⟩ := List.mem_filterMap.1 h
  have hbytes := Path.of_mem_pieces hpiece
  simp only [Hop.ofPiece?] at hhop
  split at hhop
  · cases hhop
  · split at hhop
    · cases hhop
      trivial
    · split at hhop
      · cases hhop
        trivial
      · cases hhop
        rename_i hnil hhere hup
        refine ⟨hnil, hhere, hup, fun hslash => ?_, fun hzero => hnul (hbytes _ hzero).1⟩
        have := (hbytes _ hslash).2
        simp at this

/-- The way one directory up is the beginning of the way. -/
theorem Route.hops_parent? {r above : Route} (h : r.parent? = some above) :
    above.absolute = r.absolute ∧ above.hops <+: r.hops := by
  rw [Route.parent?] at h
  cases hdrop : r.hops.reverse.dropWhile (· = .here) with
  | nil =>
    rw [hdrop] at h
    cases h
  | cons first rest =>
    rw [hdrop] at h
    cases h
    refine ⟨rfl, ?_⟩
    have hrest : rest.dropWhile (· = .here) <:+ r.hops.reverse :=
      ((List.dropWhile_suffix _).trans (List.suffix_cons first rest)).trans (hdrop ▸ List.dropWhile_suffix _)
    rwa [← List.reverse_prefix, List.reverse_reverse] at hrest

/-- The places that a way passes from a place on. -/
def OnWay (place : List Name) (hops : List Hop) (p : List Name) : Prop :=
  ∃ pre, pre <+: hops ∧ p = pre.foldl Hop.move place

theorem OnWay.of_prefix {place p : List Name} {hops more : List Hop} (hfirst : hops <+: more)
    (h : OnWay place hops p) : OnWay place more p := by
  obtain ⟨pre, hpre, rfl⟩ := h
  exact ⟨pre, hpre.trans hfirst, rfl⟩

namespace Store

/-- In a tree without links the way of a path that leads to a directory consists of directories. -/
theorem Reaches.look_of_onWay {s : Store} {path : Path} {d p : List Name} (hfree : s.top.LinkFree)
    (h : s.Reaches path d) (hway : OnWay (s.origin (Route.ofBytes path.bytes)) (hopsOf path.bytes) p) :
    s.top.look p = some .dir := by
  obtain ⟨pre, ⟨suf, hsuf⟩, rfl⟩ := hway
  have hpassable := (passable_of_walkWith hfree h.walk h.dir).1
  have hhops : (Route.ofBytes path.bytes).hops = pre ++ suf := hsuf.symm
  rw [hhops, Node.Passable.append_iff] at hpassable
  exact hpassable.1.last

theorem isDirAlong_eq_true {s : Store} {r : Route} (hslash : r.slash = false) :
    s.isDirAlong r = true ↔ ∃ d, s.Leads r d := by
  have hfollow : s.follow true r = walk s.top true linkLimit (s.origin r) r.hops := by
    simp [follow, Route.allHops, hslash]
  rw [isDirAlong, nodeAlong, hfollow]
  constructor
  · intro h
    cases hwalk : walk s.top true linkLimit (s.origin r) r.hops with
    | error e => simp [hwalk] at h
    | ok spot =>
      cases spot with
      | free _ _ => simp [hwalk] at h
      | taken goal =>
        cases hnode : s.top.get? goal with
        | none => simp [hwalk, hnode] at h
        | some node =>
          cases node with
          | file _ _ => simp [hwalk, hnode, Node.isDir] at h
          | link _ => simp [hwalk, hnode, Node.isDir] at h
          | dir entries => exact ⟨goal, hwalk, Node.look_eq_dir.2 ⟨entries, hnode⟩⟩
  · rintro ⟨d, hwalk, hdir⟩
    obtain ⟨entries, hentries⟩ := Node.look_eq_dir.1 hdir
    simp [hwalk, hentries, Node.isDir]

end Store

namespace Files

variable {s t : Store} {r : Route}

/-! ## One directory -/

/-- Directories were made where nothing stood, at some of the places in `P`, and nothing else happened. -/
structure GrowsIn (P : List Name → Prop) (s t : Store) : Prop where
  cwd : t.cwd = s.cwd
  grows : s.top.Grows t.top
  look : ∀ p, ¬ P p → t.top.look p = s.top.look p

namespace GrowsIn

variable {P Q : List Name → Prop} {u : Store}

theorem refl (hs : s.top.Plain) : GrowsIn P s s := ⟨rfl, .refl hs, fun _ _ => rfl⟩

theorem trans (h : GrowsIn P s t) (h' : GrowsIn P t u) : GrowsIn P s u :=
  ⟨h'.cwd.trans h.cwd, h.grows.trans h'.grows, fun p hp => (h'.look p hp).trans (h.look p hp)⟩

theorem mono (hPQ : ∀ p, P p → Q p) (h : GrowsIn P s t) : GrowsIn Q s t :=
  ⟨h.cwd, h.grows, fun p hp => h.look p fun hP => hp (hPQ p hP)⟩

theorem plain (h : GrowsIn P s t) : t.top.Plain := h.grows.plain

end GrowsIn

/-- A directory is made under a free name, or nothing happens. -/
theorem makeDirAlong_cases (s : Store) (r : Route) :
    (∃ fault, makeDirAlong r s = (.error fault, s)) ∨
      ∃ dir name, s.Leads ⟨r.absolute, r.hops.dropLast, false⟩ dir ∧
        r.hops.getLast? = some (.into name) ∧ name.length ≤ Route.nameLimit ∧
        s.top.look (dir ++ [name]) = none ∧ makeDirAlong r s = (.ok (), s.put dir name .emptyDir) := by
  simp only [makeDirAlong, run_bind, run_get]
  cases hroute : s.placeOfRoute r with
  | error e => exact .inl ⟨_, rfl⟩
  | ok found =>
    obtain ⟨dir, hleads, rfl⟩ := Store.placeOfRoute_eq_ok.1 hroute
    cases hlast : r.hops.getLast? with
    | none => exact .inl ⟨_, rfl⟩
    | some hop =>
      cases hop with
      | here => exact .inl ⟨_, rfl⟩
      | up => exact .inl ⟨_, rfl⟩
      | into name =>
        simp only [run_bind]
        by_cases hshort : name.length ≤ Route.nameLimit
        · rw [entry_eq hshort]
          cases hnode : s.top.get? (dir ++ [name]) with
          | some _ => exact .inl ⟨_, rfl⟩
          | none => exact .inr ⟨dir, name, hleads, rfl, hshort, Node.look_eq_none.2 hnode, rfl⟩
        · rw [entry_of_long hshort]
          exact .inl ⟨_, rfl⟩

theorem makeDirAlong_grows (hs : s.top.Plain) (hr : ∀ hop ∈ r.hops, hop.Proper) :
    GrowsIn (OnWay (s.origin r) r.hops) s (makeDirAlong r s).2 := by
  obtain ⟨fault, hfault⟩ | ⟨dir, name, hleads, hlast, -, hnone, hmade⟩ := makeDirAlong_cases s r
  · rw [hfault]
    exact .refl hs
  · have hname : IsName name := hr _ (List.mem_of_getLast? hlast)
    obtain ⟨pre, hpre⟩ := List.getLast?_eq_some_iff.1 hlast
    obtain ⟨-, hdir⟩ := Store.passable_of_walkWith hs.linkFree hleads.walk hleads.dir
    have hplace : dir ++ [name] = r.hops.foldl Hop.move (s.origin r) := by
      rw [hdir, hpre, List.dropLast_concat, List.foldl_append]
      rfl
    have hhere := Node.ChangesIn.put_here hs hname .emptyDir hleads.dir (by simp [hnone]) fun _ _ => rfl
    rw [hmade]
    refine ⟨rfl, .put hs hname hleads.dir hnone, fun p hp => hhere.look p ?_⟩
    rintro rfl
    exact hp ⟨r.hops, List.prefix_rfl, hplace⟩

theorem ensureDirAlong_grows (hs : s.top.Plain) (hr : ∀ hop ∈ r.hops, hop.Proper) :
    GrowsIn (OnWay (s.origin r) r.hops) s (ensureDirAlong r s).2 := by
  have hgrows := makeDirAlong_grows hs hr
  rw [ensureDirAlong, run_tryCatch]
  cases hmade : makeDirAlong r s with
  | mk result u =>
    rw [hmade] at hgrows
    cases result with
    | ok _ => exact hgrows
    | error fault =>
      simp only [run_bind, run_get]
      split <;> exact hgrows

/-! ## Those above it -/

theorem makeDirsAlong_grows (n : Nat) (hs : s.top.Plain) (hr : ∀ hop ∈ r.hops, hop.Proper) :
    GrowsIn (OnWay (s.origin r) r.hops) s (makeDirsAlong n r s).2 := by
  -- on the directories above that may still be made; the way to one of them is the first part of this way
  induction n generalizing s r with
  | zero => exact ensureDirAlong_grows hs hr
  | succ n ih =>
    have hgrows := makeDirAlong_grows hs hr
    rw [makeDirsAlong, run_tryCatch]
    cases hmade : makeDirAlong r s with
    | mk result u =>
      rw [hmade] at hgrows
      cases result with
      | ok _ => exact hgrows
      | error fault =>
        dsimp only
        have horigin {v : Store} (hcwd : v.cwd = s.cwd) : v.origin r = s.origin r := by
          rw [Store.origin, Store.origin, hcwd]
        split
        · cases habove : r.parent? with
          | none => exact hgrows
          | some above =>
            obtain ⟨habsolute, hfirst⟩ := Route.hops_parent? habove
            have hproper : ∀ hop ∈ above.hops, hop.Proper := fun hop hhop => hr hop (hfirst.subset hhop)
            dsimp only
            split
            · have hup := (ih hgrows.plain hproper).mono fun p => OnWay.of_prefix hfirst
              have hstart : u.origin above = s.origin r := by
                rw [Store.origin, Store.origin, habsolute, hgrows.cwd]
              rw [hstart] at hup
              rw [run_bind]
              cases hdone : makeDirsAlong n above u with
              | mk result v =>
                rw [hdone] at hup
                cases result with
                | error _ => exact hgrows.trans hup
                | ok _ =>
                  have hlast := ensureDirAlong_grows hup.plain hr
                  rw [horigin (hup.cwd.trans hgrows.cwd)] at hlast
                  exact (hgrows.trans hup).trans hlast
            · have hlast := ensureDirAlong_grows hgrows.plain hr
              rw [horigin hgrows.cwd] at hlast
              exact hgrows.trans hlast
        · simp only [run_bind, run_get]
          split <;> exact hgrows

/-- Making directories lets the tree grow on the way of the path, whatever comes of it. -/
theorem makeDirs_growsIn (hs : s.top.Plain) (path : Bytes) :
    GrowsIn (OnWay (s.origin (Route.ofBytes path)) (hopsOf path)) s (makeDirs path s).2 := by
  rw [makeDirs]
  split
  · exact .refl hs
  · rw [run_bind, ask_eq]
    cases hread : Route.read path with
    | error fault => exact .refl hs
    | ok r =>
      obtain ⟨hnul, -, rfl⟩ := Route.read_eq_ok hread
      exact makeDirsAlong_grows _ hs fun hop hhop => Route.proper_of_mem_hopsOf hnul hhop

theorem makeDirs_grows (hs : s.top.Plain) (path : Bytes) : s.top.Grows (makeDirs path s).2.top :=
  (makeDirs_growsIn hs path).grows

/-! ## What success means -/

/-- The way of a directory that was made leads to it. -/
theorem leads_of_makeDirAlong (h : makeDirAlong r s = (.ok (), t)) : ∃ d, t.Leads r d := by
  obtain ⟨fault, hfault⟩ | ⟨dir, name, hleads, hlast, hshort, hnone, hmade⟩ := makeDirAlong_cases s r
  · rw [hfault] at h
    cases (outcome_inj.1 h).1
  · rw [hmade] at h
    obtain ⟨-, rfl⟩ := outcome_inj.1 h
    have hstands : (s.put dir name .emptyDir).top.look (dir ++ [name]) = some .dir := by
      rw [Store.top_put, Node.look_put hleads.dir, Node.look_nil]
      rfl
    obtain ⟨hwalk, hdir⟩ := hleads.keeps (t := s.put dir name .emptyDir) (.put_free hnone _) rfl
    obtain ⟨pre, hpre⟩ := List.getLast?_eq_some_iff.1 hlast
    refine ⟨dir ++ [name], ?_, hstands⟩
    rw [hpre, List.dropLast_concat] at hwalk
    rw [hpre]
    exact Store.walk_concat (fun jump => Store.walkWith_direct hdir
      (Hop.direct_into hshort hstands (by simp))) Store.linkLimit hwalk

/-- A directory that was made at a path of an entry stands there, where nothing stood. -/
theorem makeDir_entry {p : Path} {text : String} (hname : IsName (Bytes.ofString text))
    (h : makeDir (p / text).bytes s = (.ok (), t)) :
    ∃ d, s.Finds p text d ∧ (Bytes.ofString text).length ≤ Route.nameLimit ∧
      s.top.look (d ++ [Bytes.ofString text]) = none ∧ t = s.put d (Bytes.ofString text) .emptyDir := by
  rw [makeDir, run_bind, ask_eq] at h
  cases hread : Route.read (p / text).bytes with
  | error fault =>
    rw [hread] at h
    cases (outcome_inj.1 h).1
  | ok r =>
    obtain ⟨hnul, hfits, rfl⟩ := Store.read_div_eq_ok hname hread
    rw [hread] at h
    obtain ⟨fault, hfault⟩ | ⟨d, name, hleads, hlast, hshort, hnone, hmade⟩ :=
      makeDirAlong_cases s (Route.ofBytes (p / text).bytes)
    · simp only [hfault] at h
      cases (outcome_inj.1 h).1
    · simp only [hmade] at h
      obtain ⟨-, rfl⟩ := outcome_inj.1 h
      rw [Route.ofBytes_div hname, List.getLast?_concat] at hlast
      rw [Route.ofBytes_div hname, List.dropLast_concat] at hleads
      cases hlast
      exact ⟨d, ⟨⟨hleads.walk, hleads.dir⟩, hnul, hfits⟩, hshort, hnone, rfl⟩

theorem leads_of_ensureDirAlong (hslash : r.slash = false)
    (h : ensureDirAlong r s = (.ok (), t)) : ∃ d, t.Leads r d := by
  rw [ensureDirAlong, run_tryCatch] at h
  cases hmade : makeDirAlong r s with
  | mk result u =>
    rw [hmade] at h
    cases result with
    | ok _ => exact leads_of_makeDirAlong (hmade.trans h)
    | error fault =>
      simp only [run_bind, run_get] at h
      split at h
      · rename_i hdir
        obtain ⟨-, rfl⟩ := outcome_inj.1 h
        exact (Store.isDirAlong_eq_true hslash).1 hdir
      · cases (outcome_inj.1 h).1

theorem leads_of_makeDirsAlong (n : Nat) (hslash : r.slash = false)
    (h : makeDirsAlong n r s = (.ok (), t)) : ∃ d, t.Leads r d := by
  cases n with
  | zero => exact leads_of_ensureDirAlong hslash h
  | succ n =>
    rw [makeDirsAlong, run_tryCatch] at h
    cases hmade : makeDirAlong r s with
    | mk result u =>
      rw [hmade] at h
      cases result with
      | ok _ => exact leads_of_makeDirAlong (hmade.trans h)
      | error fault =>
        dsimp only at h
        split at h
        · cases habove : r.parent? with
          | none =>
            simp only [habove] at h
            cases (outcome_inj.1 h).1
          | some above =>
            simp only [habove] at h
            split at h
            · obtain ⟨_, v, -, hlast⟩ := bind_eq_ok.1 h
              exact leads_of_ensureDirAlong hslash hlast
            · exact leads_of_ensureDirAlong hslash h
        · simp only [run_bind, run_get] at h
          split at h
          · rename_i hdir
            obtain ⟨-, rfl⟩ := outcome_inj.1 h
            exact (Store.isDirAlong_eq_true hslash).1 hdir
          · cases (outcome_inj.1 h).1

variable {p : Path} {text : String} (hname : IsName (Bytes.ofString text))

include hname

/-- A path of directories that were made leads to the last of them. -/
theorem reaches_of_makeDirs (h : makeDirs (p / text).bytes s = (.ok (), t)) :
    (0 : UInt8) ∉ p.bytes ∧ (p / text).bytes.length < Route.lengthLimit ∧ ∃ d, t.Reaches (p / text) d := by
  rw [makeDirs, if_neg (Path.bytes_div_ne_nil hname), run_bind, ask_eq] at h
  cases hread : Route.read (p / text).bytes with
  | error fault =>
    rw [hread] at h
    cases (outcome_inj.1 h).1
  | ok r =>
    obtain ⟨hnul, hfits, rfl⟩ := Store.read_div_eq_ok hname hread
    rw [hread] at h
    refine ⟨hnul, hfits, leads_of_makeDirsAlong _ ?_ h⟩
    rw [Route.ofBytes_div hname]

theorem opens_of_makeDirs (hs : s.top.Plain) (hp : p.isAbsolute = true)
    (h : makeDirs (p / text).bytes s = (.ok (), t)) : t.Opens (p / text) := by
  obtain ⟨hnul, -, d, hreaches⟩ := reaches_of_makeDirs hname h
  have hgrows := makeDirs_grows hs (p / text).bytes
  rw [h] at hgrows
  rw [← Path.mem_bytes_div hname] at hnul
  exact (Store.opens_of_reaches hgrows.plain.linkFree (Path.isAbsolute_div text hp) hnul hreaches).1

omit hname

/-! ## In a directory that exists -/

theorem isDirAlong_of_finds (hname : IsName (Bytes.ofString text)) {d : List Name}
    (h : s.Finds p text d) (hshort : (Bytes.ofString text).length ≤ Route.nameLimit)
    (hlink : ∀ target, s.top.look (d ++ [Bytes.ofString text]) ≠ some (.link target)) :
    s.isDirAlong (Route.ofBytes (p / text).bytes) =
      (s.top.get? (d ++ [Bytes.ofString text])).any Node.isDir := by
  rw [Store.isDirAlong, Store.nodeAlong, Store.follow_div hname h.reaches hshort fun _ => hlink, Node.look,
    Option.isSome_map]
  cases hnode : s.top.get? (d ++ [Bytes.ofString text]) with
  | none => rfl
  | some node => simp [hnode]

theorem makeDirs_of_finds (hname : IsName (Bytes.ofString text)) {d : List Name} (h : s.Finds p text d)
    (hshort : (Bytes.ofString text).length ≤ Route.nameLimit)
    (hlink : ∀ target, s.top.look (d ++ [Bytes.ofString text]) ≠ some (.link target)) :
    makeDirs (p / text).bytes s =
      match s.top.look (d ++ [Bytes.ofString text]) with
      | none => (.ok (), s.put d (Bytes.ofString text) .emptyDir)
      | some .dir => (.ok (), s)
      | some _ => (.error (.os .alreadyExists), s) := by
  have hfault : ¬ IoFault.os .alreadyExists = IoFault.notFound := by decide
  have hhops : (Route.ofBytes (p / text).bytes).hops.length = (hopsOf p.bytes).length + 1 := by
    rw [Route.ofBytes_div hname, List.length_append]
    rfl
  rw [makeDirs, if_neg (Path.bytes_div_ne_nil hname), run_bind, ask_eq,
    Store.read_div hname h.no_nul h.fits]
  simp only [hhops, makeDirsAlong, run_tryCatch, makeDirAlong_of_finds hname h hshort, Node.look]
  cases hnode : s.top.get? (d ++ [Bytes.ofString text]) with
  | none => rfl
  | some node =>
    simp only [hfault, if_false, run_bind, run_get, isDirAlong_of_finds hname h hshort hlink, hnode]
    cases node <;> rfl

end Files

end StubRelease
