/-
# StubRelease.Proofs.Roots -- roots that stand

A root stands when the way of its path consists of directories. Making the output directories of such a root
makes no others, so nothing comes about in the working directory's place (`MakesOutputDirs.present`). A root
that a path leads to stands, and so does the directory a program was started in, whichever names are on its way
(`invocationDir_stands`).
-/
import StubRelease.Launch
import StubRelease.Proofs.Frame

namespace StubRelease

open Sequence Node
open Route (hopsOf slashByte)

/-! ## Ways of directories -/

namespace Node

theorem Passable.short {top : Node} {place : List Name} {hops : List Hop} (h : top.Passable place hops) :
    ∀ hop ∈ hops, hop.Short := by
  induction hops generalizing place with
  | nil => simp
  | cons first rest ih =>
    intro hop hmem
    rcases List.mem_cons.1 hmem with rfl | hmem
    · exact h.2.1
    · exact ih h.2.2 hop hmem

/-- A way of directories can be passed if its names can be looked up. -/
theorem Passable.of_onWay {top : Node} {place : List Name} {hops : List Hop}
    (hway : ∀ p, OnWay place hops p → top.look p = some .dir) (hshort : ∀ hop ∈ hops, hop.Short) :
    top.Passable place hops := by
  have hstart : top.look place = some .dir := hway place ⟨[], List.nil_prefix, rfl⟩
  induction hops generalizing place with
  | nil => exact hstart
  | cons first rest ih =>
    have hnext (p : List Name) (hp : OnWay (first.move place) rest p) : top.look p = some .dir := by
      obtain ⟨pre, hpre, rfl⟩ := hp
      exact hway _ ⟨first :: pre, List.cons_prefix_cons.2 ⟨rfl, hpre⟩, rfl⟩
    refine ⟨hstart, hshort first List.mem_cons_self, ih hnext (fun hop hmem => ?_) (hnext _ ⟨[], List.nil_prefix, rfl⟩)⟩
    exact hshort hop (List.mem_cons_of_mem _ hmem)

/-- Above a directory are directories. -/
theorem look_eq_dir_of_isPrefix {n : Node} {place p : List Name} (h : n.look place = some .dir) (hp : p <+: place) :
    n.look p = some .dir := by
  obtain ⟨rest, rfl⟩ := hp
  cases rest with
  | nil => rwa [List.append_nil] at h
  | cons first rest => exact look_eq_dir_of_below h

end Node

/-- The way of a root consists of directories, as far as names can be looked up. -/
def Store.Stands (s : Store) (root : Path) : Prop :=
  ∀ p, OnWay (s.origin (Route.ofBytes root.bytes)) (hopsOf root.bytes) p → s.top.look p = some .dir

namespace Store

variable {s t : Store} {root : Path}

theorem Reaches.stands (hfree : s.top.LinkFree) {d : List Name} (h : s.Reaches root d) : s.Stands root :=
  fun _ hp => h.look_of_onWay hfree hp

/-- A root that stands is reached if it is reached later. -/
theorem Stands.reaches (h : s.Stands root) (hfree : t.top.LinkFree) {d : List Name}
    (hlater : t.Reaches root d) : s.Reaches root (s.spelled root) := by
  obtain ⟨hpass, -⟩ := passable_of_walkWith hfree hlater.walk hlater.dir
  have hpass' : s.top.Passable (s.origin (Route.ofBytes root.bytes)) (hopsOf root.bytes) :=
    .of_onWay h hpass.short
  exact ⟨walkWith_of_passable hpass', hpass'.last⟩

end Store

/-- Making the output directories of a root that stands makes nothing else. -/
theorem Layout.MakesOutputDirs.look {l : Layout} {s t : Store} (h : l.MakesOutputDirs s t) (hs : s.top.Plain)
    (hroot : s.Stands l.root) : t.cwd = s.cwd ∧ t.top.Plain ∧ ∀ p, p ≠ rawModulesAt (s.spelled l.root) →
      p ≠ releaseAt (s.spelled l.root) → t.top.look p = s.top.look p := by
  obtain ⟨u, hraw, hrelease⟩ := h
  have hfirst := Files.makeDirs_div_growsIn (p := l.root) hs isName_rawModules
  rw [← rawModulesDir, hraw] at hfirst
  have hsecond := Files.makeDirs_div_growsIn (p := l.root) hfirst.plain isName_release
  rw [← releaseDir, hrelease, Store.spelled_congr hfirst.cwd] at hsecond
  have horigin : u.origin (Route.ofBytes l.root.bytes) = s.origin (Route.ofBytes l.root.bytes) := by
    rw [Store.origin, Store.origin, hfirst.cwd]
  rw [horigin] at hsecond
  refine ⟨hsecond.cwd.trans hfirst.cwd, hsecond.plain, fun p hp hp' => ?_⟩
  by_cases hway : OnWay (s.origin (Route.ofBytes l.root.bytes)) (hopsOf l.root.bytes) p
  · rw [hroot p hway, hsecond.grows.look_eq (hfirst.grows.look_eq (hroot p hway))]
  · rw [hsecond.look p (not_or.2 ⟨hway, hp'⟩), hfirst.look p (not_or.2 ⟨hway, hp⟩)]

/-- What is found in the working directory's place once the output directories are made stood there before. -/
theorem Layout.MakesOutputDirs.present {l : Layout} {s t : Store} (h : l.MakesOutputDirs s t) (hs : s.top.Plain)
    (hroot : s.Stands l.root) (hstands : t.present l.workDir.bytes = true) : s.present l.workDir.bytes = true := by
  obtain ⟨hcwd, ht, hlook⟩ := h.look hs hroot
  have hname := isName_work l.version
  cases hnode : t.nodeAt true l.workDir.bytes with
  | error fault =>
    rw [Store.present, hnode] at hstands
    cases hstands
  | ok node =>
    obtain ⟨hfinds, hshort, hget⟩ := Store.finds_of_nodeAt hname ht.linkFree hnode
    rw [Store.spelled_congr hcwd] at hget
    have hseen := look_of_get? hget
    rw [hlook _ (fun heq => work_ne_rawModules _ (List.singleton_inj.1 (List.append_cancel_left heq)))
      fun heq => work_ne_release _ (List.singleton_inj.1 (List.append_cancel_left heq))] at hseen
    have hreaches := hroot.reaches ht.linkFree hfinds.reaches
    exact Store.present_of_look hname ⟨hreaches, hfinds.no_nul, hfinds.fits⟩ hshort hseen
      fun target hlink => hs.linkFree _ target (hlink ▸ hseen)

/-! ## The directory a program was started in -/

namespace Store

/-- The hops of the text of a place go down its names. -/
theorem hopsOf_placeText {place : List Name} (h : ∀ name ∈ place, IsName name) :
    hopsOf (placeText place) = place.map .into := by
  have hnames (front : Bytes) : hopsOf (front ++ place.flatMap fun name => slashByte :: name) =
      hopsOf front ++ place.map .into := by
    induction place generalizing front with
    | nil => simp
    | cons name rest ih =>
      have hname : IsName name := h name List.mem_cons_self
      rw [List.flatMap_cons, ← List.append_assoc, ih fun other hother => h other (List.mem_cons_of_mem _ hother),
        Route.hopsOf_append_slash, Route.hopsOf_name hname]
      simp
  rw [placeText]
  cases place with
  | nil => rfl
  | cons _ _ => exact hnames []

/-- The text of a place starts at the root. -/
theorem absolute_placeText (place : List Name) : (Route.ofBytes (placeText place)).absolute = true := by
  rw [placeText]
  cases place <;> simp [Route.ofBytes]

/-- Going down names passes the places above where they lead. -/
theorem onWay_into {names p : List Name} (h : OnWay [] (names.map .into) p) : p <+: names := by
  have hdown (pre : List Name) (place : List Name) :
      (pre.map Hop.into).foldl Hop.move place = place ++ pre := by
    induction pre generalizing place with
    | nil => simp
    | cons first rest ih => simp [Hop.move, ih]
  obtain ⟨pre, hpre, rfl⟩ := h
  obtain ⟨front, hfront, rfl⟩ := List.prefix_map_iff.1 hpre
  rw [hdown, List.nil_append]
  exact hfront

end Store

/-- The directory a program was started in stands, and its path spells it. -/
theorem invocationDir_stands {s : Store} (hs : s.top.Plain) {root : Path} (h : invocationDir s = .ok root) :
    s.Stands root := by
  rw [invocationDir] at h
  split at h
  · rename_i entries hcwd
    have hdir : s.top.look s.cwd = some .dir := look_eq_dir.2 ⟨entries, hcwd⟩
    cases htext : Bytes.toString? (Store.placeText s.cwd) with
    | none =>
      rw [htext] at h
      cases h
    | some text =>
      rw [htext] at h
      obtain rfl := Except.ok.inj h
      have hbytes : Path.bytes ⟨text⟩ = Store.placeText s.cwd := Bytes.ofString_of_toString? htext
      intro p hp
      rw [hbytes, Store.hopsOf_placeText (hs.wellFormed.isName_of_look (by simp [hdir])), Store.origin,
        Store.absolute_placeText, if_pos rfl] at hp
      exact look_eq_dir_of_isPrefix hdir (Store.onWay_into hp)
  · cases h

end StubRelease
