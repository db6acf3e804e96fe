/-
# StubRelease.Proofs.Staging -- what staging does to the tree

Promoting the generated entries clears them where they were and adds them under names that were free
(`promoteGenerated_promotes`), and copying the metadata changes the copies only (`copyMetadata_alters`),
whether they succeed or stop half way.
Publishing moves the distributions, as they are, to a place where nothing stood (`publishDist_eq_ok`).
-/
import StubRelease.Proofs.Layout
import StubRelease.Proofs.Tree.Effects
import StubRelease.Staging

namespace StubRelease

open Sequence

namespace Staging

variable {s t : Store} {p q w : Path} {text other : String} {order : Listing.Order}

/-! ## Moving without replacing -/

theorem movePath_of_present {source dest : Path} (h : s.present dest.bytes = true) :
    movePath source dest s = (.error (.destinationExists dest), s) := by
  rw [movePath, run_bind, require_eq, h]
  rfl

theorem movePath_of_absent {source dest : Path} (h : s.present dest.bytes = false) :
    movePath source dest s = Work.ofFiles (Files.rename source.bytes dest.bytes) s := by
  have hrequire : Work.require (fun s => !s.present dest.bytes) (.destinationExists dest) s = (.ok (), s) :=
    require_eq_ok.2 ⟨by rw [h]; rfl, rfl⟩
  rw [movePath, bind_of_ok _ hrequire]

/-- An entry is moved to where nothing stands, unless that is inside the entry. -/
theorem movePath_of_free {e d : List Name} (hother : IsName (Bytes.ofString other)) (hsource : s.Finds q other e)
    (hsourceShort : (Bytes.ofString other).length ≤ Route.nameLimit)
    (hname : IsName (Bytes.ofString text)) (hdest : s.Finds p text d)
    (hdestShort : (Bytes.ofString text).length ≤ Route.nameLimit) {node : Node}
    (hfound : s.top.get? (e ++ [Bytes.ofString other]) = some node)
    (hnone : s.top.look (d ++ [Bytes.ofString text]) = none) (hdown : ¬ e ++ [Bytes.ofString other] <+: d) :
    movePath (q / other) (p / text) s =
      (.ok (), (s.drop e (Bytes.ofString other)).put d (Bytes.ofString text) node) := by
  rw [movePath_of_absent (Store.not_present_of_look hname hdest hdestShort hnone), ofFiles_eq_ok]
  exact Files.rename_of_free hother hsource hsourceShort hname hdest hdestShort hfound hnone hdown

/-- An entry is moved to where nothing stands, or nothing happens. -/
theorem movePath_finds (hs : s.top.LinkFree) (hother : IsName (Bytes.ofString other))
    (hname : IsName (Bytes.ofString text)) :
    (∃ failure, movePath (q / other) (p / text) s = (.error failure, s)) ∨
      ∃ e d node, Files.Carries s q other e p text d node ∧ s.top.look (d ++ [Bytes.ofString text]) = none ∧
        movePath (q / other) (p / text) s =
          (.ok (), (s.drop e (Bytes.ofString other)).put d (Bytes.ofString text) node) := by
  cases hpresent : s.present (p / text).bytes with
  | true => exact .inl ⟨_, movePath_of_present hpresent⟩
  | false =>
    have hnone {d : List Name} (h : s.Finds p text d)
        (hshort : (Bytes.ofString text).length ≤ Route.nameLimit) :
        s.top.look (d ++ [Bytes.ofString text]) = none := by
      refine Classical.byContradiction fun hstands => ?_
      obtain ⟨seen, hseen⟩ := Option.ne_none_iff_exists'.1 hstands
      have := Store.present_of_look hname h hshort hseen fun target hlink => hs _ target (hlink ▸ hseen)
      rw [hpresent] at this
      cases this
    rw [movePath_of_absent hpresent, ofFiles_eq]
    obtain ⟨fault, hfault⟩ | ⟨d, h, hshort, hstands, -⟩ | ⟨e, d, node, hcarries⟩ :=
      Files.rename_finds (s := s) (q := q) (p := p) hother hname
    · rw [hfault]
      exact .inl ⟨_, rfl⟩
    · exact absurd (hnone h hshort) hstands
    · rw [Files.rename_of_carries hother hname hcarries]
      exact .inr ⟨e, d, node, hcarries, hnone hcarries.dest hcarries.destShort, rfl⟩

theorem movePath_cases (hs : s.top.LinkFree) (hq : q.isAbsolute = true) (hp : p.isAbsolute = true)
    (hother : IsName (Bytes.ofString other)) (hname : IsName (Bytes.ofString text)) :
    (∃ failure, movePath (q / other) (p / text) s = (.error failure, s)) ∨
      ∃ node, Files.Moves s q other p text node ∧
        s.top.look (p.place ++ [Bytes.ofString text]) = none ∧
        movePath (q / other) (p / text) s =
          (.ok (), (s.drop q.place (Bytes.ofString other)).put p.place (Bytes.ofString text) node) := by
  obtain hrefused | ⟨e, d, node, hcarries, hnone, hmoved⟩ := movePath_finds (q := q) (p := p) hs hother hname
  · exact .inl hrefused
  · obtain ⟨hmoves, rfl, rfl⟩ := hcarries.moves hs hq hp
    exact .inr ⟨node, hmoves, hnone, hmoved⟩

/-- What is moved goes from its place and is added under a name that is free. -/
theorem movePath_alters (hs : s.top.Plain) (hother : IsName (Bytes.ofString other))
    (hname : IsName (Bytes.ofString text)) :
    s.AltersIn (fun place => s.spelled q ++ [Bytes.ofString other] <+: place ∨
        s.top.look (s.spelled p ++ [Bytes.ofString text]) = none ∧ s.spelled p ++ [Bytes.ofString text] <+: place)
      (movePath (q / other) (p / text) s).2 := by
  obtain ⟨failure, hfailure⟩ | ⟨e, d, node, h, hnone, hmoved⟩ :=
    movePath_finds (q := q) (p := p) hs.linkFree hother hname
  · rw [hfailure]
    exact .refl hs
  · obtain rfl := h.source.reaches.eq_spelled hs.linkFree
    obtain rfl := h.dest.reaches.eq_spelled hs.linkFree
    rw [hmoved]
    have hmove := Node.ChangesIn.move hs (s.spelled q) (Bytes.ofString other) (s.spelled p) hname (hs.get? h.found)
    exact ⟨rfl, hmove.mono fun place hat => hat.imp_right fun hat => ⟨hnone, hat⟩⟩

/-! ## Promoting -/

/-- What promoting does in a directory: it clears the generated entries, and adds entries under names that are
free. -/
def Promotes (d : List Name) (s t : Store) : Prop :=
  s.AltersIn (fun p => d ++ [Bytes.ofString Layout.generatedName] <+: p ∨
    ∃ name, s.top.look (d ++ [name]) = none ∧ d ++ [name] <+: p) t

namespace Promotes

variable {d : List Name} {u : Store}

theorem refl (hs : s.top.Plain) : Promotes d s s := Store.AltersIn.refl hs

theorem trans (h : Promotes d s t) (h' : Promotes d t u) : Promotes d s u := by
  refine ⟨h'.cwd.trans h.cwd, h'.plain, fun p hp => ?_⟩
  have hfirst : t.top.look p = s.top.look p := Store.AltersIn.look h hp
  rw [← hfirst]
  refine Store.AltersIn.look h' fun hlater => hp (hlater.imp_right fun ⟨name, hnone, hat⟩ => ?_)
  -- a name that is free after the first steps was free before them
  refine ⟨name, ?_, hat⟩
  rw [← hnone]
  refine (Store.AltersIn.look h fun hearlier => hp ?_).symm
  rcases hearlier with hgenerated | ⟨other, hfree, hother⟩
  · exact .inl (hgenerated.trans hat)
  · exact .inr ⟨other, hfree, hother.trans hat⟩

/-- Where something stands under another name than that of the generated entries, nothing is altered. -/
theorem look (h : Promotes d s t) {name : Name} (hname : name ≠ Bytes.ofString Layout.generatedName)
    (hstood : s.top.look (d ++ [name]) ≠ none) {p : List Name} (hp : d ++ [name] <+: p) :
    t.top.look p = s.top.look p := by
  refine Store.AltersIn.look h ?_
  rintro (hgenerated | ⟨other, hfree, hother⟩)
  · exact hname (entry_isPrefix_inj hp hgenerated)
  · obtain rfl := entry_isPrefix_inj hp hother
    exact hstood hfree

theorem alters (h : Promotes d s t) : s.AltersIn (Inside d) t := by
  refine h.mono ?_
  rintro p (hp | ⟨name, -, hp⟩)
  · exact inside_of_entry hp
  · exact inside_of_entry hp

end Promotes

theorem promoteEntry_promotes (hs : s.top.Plain) {name : Name} (hname : IsName name) :
    Promotes (s.spelled w) s (promoteEntry w name s).2 := by
  rw [promoteEntry]
  cases htext : Bytes.toString? name with
  | none => exact .refl hs
  | some text =>
    have hbytes := Bytes.ofString_of_toString? htext
    have htextName : IsName (Bytes.ofString text) := hbytes ▸ hname
    refine (movePath_alters hs htextName htextName).mono fun p hp => hp.imp (fun hp => ?_) fun hp => ⟨_, hp⟩
    rw [generatedDir, Store.spelled_div Layout.isName_generated] at hp
    exact (List.prefix_append _ _).trans hp

theorem promoteEach_promotes (hs : s.top.Plain) (listing : List Name) (hnames : ∀ name ∈ listing, IsName name) :
    Promotes (s.spelled w) s (promoteListed.each w listing s).2 := by
  induction listing generalizing s with
  | nil => exact .refl hs
  | cons name rest ih =>
    refine relates_bind .trans (promoteEntry_promotes hs (hnames name List.mem_cons_self)) fun _ t _ ht => ?_
    rw [← Store.spelled_congr ht.cwd]
    exact ih ht.plain fun other hother => hnames other (List.mem_cons_of_mem _ hother)

/-- The entries of a directory that is found are moved up as they are handed out. -/
theorem promoteGenerated_of_nodeAt {entries : Listing Node}
    (h : s.nodeAt true (generatedDir w).bytes = .ok (.dir entries)) :
    promoteGenerated order w s =
      promoteListed w (order.arrange (generatedDir w).bytes (Listing.names entries)) s := by
  have hdir : s.isDir (generatedDir w).bytes = true := by
    rw [Store.isDir, h]
    rfl
  have hrequire : Work.require (·.isDir (generatedDir w).bytes) (.missingInput (generatedDir w)) s = (.ok (), s) :=
    require_eq_ok.2 ⟨hdir, rfl⟩
  have hread : Work.ofFiles (Files.readDir order (generatedDir w).bytes) s =
      (.ok (order.arrange (generatedDir w).bytes (Listing.names entries)), s) := by
    rw [ofFiles_eq_ok, Files.readDir_eq, h]
  rw [promoteGenerated, bind_of_ok _ hrequire, bind_of_ok _ hread]

/-- What is handed out of a directory are names. -/
theorem isName_of_readDir (hs : s.top.Plain) (hname : IsName (Bytes.ofString text)) {listing : List Name}
    (h : (Files.readDir order (p / text).bytes s).1 = .ok listing) : ∀ name ∈ listing, IsName name := by
  rw [Files.readDir_eq] at h
  cases hnode : s.nodeAt true (p / text).bytes with
  | error fault =>
    rw [hnode] at h
    cases h
  | ok node =>
    rw [hnode] at h
    obtain ⟨-, -, hget⟩ := Store.finds_of_nodeAt hname hs.linkFree hnode
    cases node with
    | file _ _ => cases h
    | link _ => cases h
    | dir entries =>
      obtain rfl := Except.ok.inj h
      intro name hmem
      obtain ⟨entry, hentry, rfl⟩ := List.mem_map.1 (Listing.Order.mem_arrange.1 hmem)
      cases (hs.get? hget).wellFormed with
      | dir _ hnames _ => exact hnames entry hentry

/-- Promoting clears the generated entries and adds entries under free names, and does nothing else. -/
theorem promoteGenerated_promotes (order : Listing.Order) (hs : s.top.Plain) :
    Promotes (s.spelled w) s (promoteGenerated order w s).2 := by
  refine relates_bind .trans (by rw [require_store]; exact .refl hs) fun _ t hrequire _ => ?_
  obtain ⟨-, rfl⟩ := require_eq_ok.1 hrequire
  refine relates_bind .trans (by rw [ofFiles_store, Files.readDir_eq]; exact .refl hs) fun listing u hread _ => ?_
  have hlisted := ofFiles_eq_ok.1 hread
  have hkept : u = s := by
    rw [Files.readDir_eq] at hlisted
    exact (outcome_inj.1 hlisted).2.symm
  have hnames := isName_of_readDir hs Layout.isName_generated (by rw [← generatedDir, hlisted])
  rw [hkept]
  refine relates_bind .trans (promoteEach_promotes hs listing hnames) fun _ v _ hv => ?_
  have hremove := Files.removeDir_alters (p := w) hv.plain Layout.isName_generated
  rw [Store.spelled_congr hv.cwd] at hremove
  have hcleared : Promotes (s.spelled w) v (Files.removeDir (generatedDir w).bytes v).2 := by
    refine hremove.mono ?_
    rintro p rfl
    exact .inl List.prefix_rfl
  refine relates_bind .trans ?_ fun _ _ _ hlast => .refl hlast.plain
  rw [ofFiles_store]
  exact hcleared

theorem promoteGenerated_changes (hs : s.top.Plain) (hw : w.isAbsolute = true) :
    s.top.ChangesIn (Inside w.place) (promoteGenerated order w s).2.top := by
  rw [← Store.spelled_of_isAbsolute (s := s) hw]
  exact (promoteGenerated_promotes order hs).alters.changes

/-! ## Copying the metadata -/

theorem copyMetadataFile_alters (hs : s.top.Plain) (scriptDir : Path) (hname : IsName (Bytes.ofString text)) :
    s.AltersIn (· = s.spelled w ++ [Bytes.ofString text]) (copyMetadataFile w scriptDir text s).2 := by
  refine alters_bind (by rw [require_store]; exact .refl hs) fun _ t hrequire _ => ?_
  obtain ⟨-, rfl⟩ := require_eq_ok.1 hrequire
  rw [ofFiles_store]
  exact Files.copyFile_alters hs hname _

theorem copyEach_alters (hs : s.top.Plain) (c : Config) (names : List String)
    (hnames : ∀ name ∈ names, IsName (Bytes.ofString name)) :
    s.AltersIn (fun p => ∃ name ∈ names, p = s.spelled w ++ [Bytes.ofString name])
      (copyMetadata.each w c names s).2 := by
  induction names generalizing s with
  | nil => exact .refl hs
  | cons name rest ih =>
    have hfirst := copyMetadataFile_alters (w := w) hs c.scriptDir (hnames name List.mem_cons_self)
    refine alters_bind (hfirst.mono fun p hp => ⟨name, List.mem_cons_self, hp⟩) fun _ t _ ht => ?_
    have hrest := ih ht.plain fun other hother => hnames other (List.mem_cons_of_mem _ hother)
    rw [ht.spelled] at hrest
    exact hrest.mono fun p ⟨other, hother, hp⟩ => ⟨other, List.mem_cons_of_mem _ hother, hp⟩

theorem isName_metadata : ∀ name ∈ Config.metadataNames, IsName (Bytes.ofString name) := by decide

/-- Copying the metadata changes the copies and nothing else. -/
theorem copyMetadata_alters (hs : s.top.Plain) (c : Config) :
    s.AltersIn (fun p => ∃ name ∈ Config.metadataNames, p = s.spelled w ++ [Bytes.ofString name])
      (copyMetadata w c s).2 :=
  copyEach_alters hs c Config.metadataNames isName_metadata

theorem copyMetadata_changes (hs : s.top.Plain) (hw : w.isAbsolute = true) (c : Config) :
    s.top.ChangesIn (Inside w.place) (copyMetadata w c s).2.top := by
  rw [← Store.spelled_of_isAbsolute (s := s) hw]
  exact ((copyMetadata_alters hs c).mono fun p ⟨name, _, hp⟩ => ⟨_, [], hp⟩).changes

/-! ## Publishing -/

/-- What publishing has done when it succeeds: the distributions were moved, as they were, to where
nothing stood. -/
theorem publishDist_eq_ok (hs : s.top.Plain) (hw : w.isAbsolute = true) (hp : p.isAbsolute = true)
    {dist : Path} (h : publishDist w p s = (.ok dist, t)) :
    dist = p / Layout.distName ∧ ∃ u node, Files.makeDirs p.bytes s = (.ok (), u) ∧
      (∃ entries, s.nodeAt false (w / Layout.distName).bytes = .ok (.dir entries)) ∧
      Files.Moves u w Layout.distName p Layout.distName node ∧
      u.top.look (p.place ++ [Bytes.ofString Layout.distName]) = none ∧
      t = (u.drop w.place (Bytes.ofString Layout.distName)).put p.place
        (Bytes.ofString Layout.distName) node := by
  rw [publishDist] at h
  obtain ⟨_, _, hrequire, hmake⟩ := bind_eq_ok.1 h
  obtain ⟨hdir, rfl⟩ := require_eq_ok.1 hrequire
  obtain ⟨_, u, hmade, hmove⟩ := bind_eq_ok.1 hmake
  rw [ofFiles_eq_ok] at hmade
  have hu : u.top.Plain := by
    have := (Files.makeDirs_grows hs p.bytes).plain
    rwa [hmade] at this
  obtain ⟨_, v, hmoved, hdone⟩ := bind_eq_ok.1 hmove
  obtain ⟨hdist, rfl⟩ := outcome_inj.1 hdone
  refine ⟨(Except.ok.inj hdist).symm, ?_⟩
  obtain ⟨failure, hfailure⟩ | ⟨node, hmoves, hnone, hmove⟩ :=
    movePath_cases hu.linkFree hw hp Layout.isName_dist Layout.isName_dist
  · rw [hfailure] at hmoved
    cases (outcome_inj.1 hmoved).1
  · rw [hmove] at hmoved
    obtain ⟨-, rfl⟩ := outcome_inj.1 hmoved
    obtain ⟨hnames, hlook⟩ := (Store.isDir_div Layout.isName_dist hs.linkFree hw).1 hdir
    obtain ⟨entries, hentries⟩ := Node.look_eq_dir.1 hlook
    exact ⟨u, node, hmade, ⟨entries, (Store.nodeAt_div_eq_ok Layout.isName_dist hs.linkFree hw).2
      ⟨hnames, hentries⟩⟩, hmoves, hnone, rfl⟩

end Staging

end StubRelease
