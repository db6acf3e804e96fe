/-
# StubRelease.Proofs.Collisions -- promoting entries in any order

A directory may list its entries in any order, and a promotion moves one after the other until it meets a name that is
taken. The name of an entry that was moved is never the name of a later one, so whether a name is taken can be read
off the tree before the first move. Main statement: a promotion goes through exactly if no name is taken, and one that
stops leaves every generated entry as it was in one of the two directories (`promotion_loses_nothing`).
-/
import StubRelease.Proofs.Moving
import StubRelease.Proofs.Promotion

namespace StubRelease

open Sequence Node
open Layout (generatedEntry)

namespace Staging

variable {s t u : Store} {w : Path} {d done : List Name} {work : Node} {entries : Listing Node} {x : Name}

/-! ## Before the first move -/

/-- A working directory without links, and a path to it that does not lead through the generated entries: it leads
there also when there are none. The paths of the generated entries are texts that the operating system accepts. -/
structure Promotable (w : Path) (d : List Name) (work : Node) (entries : Listing Node) (s : Store) : Prop where
  stands : s.top.get? d = some work
  plain : work.Plain
  generated : work.get? [generatedEntry] = some (.dir entries)
  isDir : s.isDir (generatedDir w).bytes = true
  path : (s.put d generatedEntry .emptyDir).Reaches w d
  text : ∀ x ∈ Listing.names entries, Bytes.toString? x ≠ none
  short : ∀ x ∈ Listing.names entries, x.length ≤ Route.nameLimit
  fits : ∀ x ∈ Listing.names entries, (generatedDir w).bytes.length + 1 + x.length < Route.lengthLimit

namespace Promotable

theorem look (h : Promotable w d work entries s) (p : List Name) : s.top.look (d ++ p) = work.look p := by
  rw [look_append, h.stands, Option.bind_some]

theorem get?_out (h : Promotable w d work entries s) : s.top.get? (d ++ [generatedEntry]) = some (.dir entries) := by
  rw [get?_append, h.stands, Option.bind_some, h.generated]

theorem look_out (h : Promotable w d work entries s) : s.top.look (d ++ [generatedEntry]) = some .dir :=
  look_of_get? h.get?_out

/-- An entry is listed if something of its name is in the directory. -/
theorem mem_names (h : Promotable w d work entries s) :
    x ∈ Listing.names entries ↔ s.top.look (d ++ [generatedEntry, x]) ≠ none := by
  have hlook : s.top.look (d ++ [generatedEntry, x]) = (Node.dir entries).look [x] := by
    rw [List.append_cons, look_append, h.get?_out, Option.bind_some]
  rw [hlook, mem_names_iff (h.plain.get? h.generated).listing.1]

theorem isName (h : Promotable w d work entries s) (hx : x ∈ Listing.names entries) : IsName x :=
  (h.plain.get? h.generated).listing.2 x hx

/-- A name that is taken is that of a file or a directory. -/
theorem taken_not_link (h : Promotable w d work entries s) (target : Bytes) :
    s.top.look (d ++ [x]) ≠ some (.link target) := by
  rw [h.look]
  exact h.plain.linkFree [x] target

/-! ## After some moves -/

/-- The names of entries that have been moved were free. -/
theorem free_of_mem (h : Promotable w d work entries s) (hmoved : Promoted d done s t) (hx : x ∈ done) :
    s.top.look (d ++ [x]) = none := by
  obtain hnone | ⟨⟨target, hlink⟩, -⟩ := hmoved.gaveWay x hx
  · exact hnone
  · exact absurd hlink (h.taken_not_link target)

/-- What stands besides the generated entries goes on standing. -/
theorem look_kept (h : Promotable w d work entries s) (hmoved : Promoted d done s t) {p : List Name} {seen : Sight}
    (hp : (s.put d generatedEntry .emptyDir).top.look p = some seen) : t.top.look p = some seen := by
  have hd : s.top.look d = some .dir := look_eq_dir_of_below h.look_out
  have hnew : ∀ x ∈ done, x ≠ generatedEntry := by
    rintro x hx rfl
    exact hmoved.generated_notMem h.look_out hx
  rw [Store.top_put] at hp
  by_cases hat : d ++ [generatedEntry] <+: p
  · obtain ⟨rest, rfl⟩ := hat
    rw [List.append_assoc, List.singleton_append, look_put hd] at hp
    cases rest with
    | cons first rest => cases hp
    | nil =>
      obtain rfl := Option.some.inj hp
      rw [List.append_nil, hmoved.elsewhere, h.look_out]
      · rfl
      · exact fun x hx rest => ⟨below_ne (hnew x hx).symm _ _, by simp⟩
  · rw [look_put_elsewhere _ _ hat] at hp
    rw [hmoved.elsewhere, hp]
    refine fun x hx rest => ⟨?_, ?_⟩
    · -- nothing stood below the places that the entries were moved to
      rintro rfl
      have hfree := h.free_of_mem hmoved hx
      have hnot : s.top.look (d ++ [x]) ≠ some .dir := by simp [hfree]
      have hbelow := eq_of_isPrefix_of_look hnot hp (entry_isPrefix_iff.2 rfl)
      rw [hbelow, hfree] at hp
      cases hp
    · rintro rfl
      exact hat (entry_isPrefix_iff.2 rfl)

theorem keepsWays (h : Promotable w d work entries s) (hmoved : Promoted d done s t) :
    (s.put d generatedEntry .emptyDir).top.KeepsWays t.top :=
  ⟨fun _ => h.look_kept hmoved, fun _ _ => h.look_kept hmoved⟩

/-- The paths of the two directories go on leading there. -/
theorem reaches (h : Promotable w d work entries s) (hmoved : Promoted d done s t) :
    t.Reaches w d ∧ t.Reaches (generatedDir w) (d ++ [generatedEntry]) := by
  have hd : s.top.look d = some .dir := look_eq_dir_of_below h.look_out
  have hwork := h.path.keeps (h.keepsWays hmoved) hmoved.cwd
  refine ⟨hwork, Store.reaches_div Layout.isName_generated hwork (by decide) (h.look_kept hmoved ?_)⟩
  exact look_put hd _ _ []

/-- The paths that an entry is moved between. -/
theorem finds (h : Promotable w d work entries s) (hmoved : Promoted d done s t) {text : String}
    (hx : Bytes.ofString text ∈ Listing.names entries) :
    t.Finds (generatedDir w) text (d ++ [generatedEntry]) ∧ t.Finds w text d := by
  obtain ⟨hwork, hout⟩ := h.reaches hmoved
  obtain ⟨hnul, -, -⟩ := Store.reaches_of_isDir Layout.isName_generated h.isDir
  have hname := h.isName hx
  have hfits := h.fits _ hx
  have hlonger := Path.length_bytes_lt_div (p := w) Layout.isName_generated
  refine ⟨⟨hout, by rwa [generatedDir, Path.mem_bytes_div Layout.isName_generated], ?_⟩, ⟨hwork, hnul, ?_⟩⟩
  · exact Nat.lt_of_le_of_lt (Path.length_bytes_div_le hname) hfits
  · rw [generatedDir] at hfits
    have hlength := Path.length_bytes_div_le (p := w) hname
    omega

end Promotable

/-- When every entry has been moved their directory is empty. -/
theorem Promotable.emptied (h : Promotable w d work entries s) (hmoved : Promoted d done s t)
    (hall : ∀ x ∈ Listing.names entries, x ∈ done) : t.top.get? (d ++ [generatedEntry]) = some .emptyDir := by
  obtain ⟨rest, hrest⟩ := look_eq_dir.1 (h.reaches hmoved).2.dir
  cases rest with
  | nil => exact hrest
  | cons entry rest =>
    have hstands : t.top.look (d ++ generatedEntry :: entry.1 :: []) ≠ none := by
      rw [List.append_cons, look_append, hrest, Option.bind_some, look_dir_cons]
      simp [Listing.find?]
    by_cases hlisted : entry.1 ∈ Listing.names entries
    · exact absurd (hmoved.gone _ (hall _ hlisted) []) hstands
    · have hnew : entry.1 ∉ done := by
        intro hmem
        exact hstands (hmoved.gone _ hmem [])
      rw [(hmoved.unmoved h.look_out hnew).2] at hstands
      exact absurd (h.mem_names.2 hstands) hlisted

/-! ## One entry -/

/-- An entry whose name is free is moved up. -/
theorem promoteEntry_of_free (h : Promotable w d work entries s) (hmoved : Promoted d done s t)
    (hx : x ∈ Listing.names entries) (hnew : x ∉ done) (hfree : s.top.look (d ++ [x]) = none) :
    ∃ u, promoteEntry w x t = (.ok (), u) ∧ Promoted d (done ++ [x]) s u := by
  obtain ⟨hsame, hsource⟩ := hmoved.unmoved h.look_out hnew
  cases htext : Bytes.toString? x with
  | none => exact absurd htext (h.text x hx)
  | some text =>
    obtain rfl := Bytes.ofString_of_toString? htext
    obtain ⟨hfrom, hto⟩ := h.finds hmoved hx
    have hstands : t.top.look (d ++ [generatedEntry, Bytes.ofString text]) ≠ none := by
      rw [hsource []]
      exact h.mem_names.1 hx
    obtain ⟨node, hnode⟩ := Option.ne_none_iff_exists'.1 (mt look_eq_none.2 hstands)
    rw [List.append_cons] at hnode
    have hnone : t.top.look (d ++ [Bytes.ofString text]) = none := by rw [hsame, hfree]
    have hne : Bytes.ofString text ≠ generatedEntry := by
      intro heq
      rw [heq, h.look_out] at hfree
      cases hfree
    have hdown : ¬ d ++ [generatedEntry] ++ [Bytes.ofString text] <+: d := by
      intro habove
      exact not_entry_isPrefix d generatedEntry ((List.prefix_append _ _).trans habove)
    have hshort := h.short _ hx
    refine ⟨_, ?_, hmoved.snoc h.look_out hnew hne hto.reaches.dir hnode (.inl hnone)⟩
    simp only [promoteEntry, htext]
    exact movePath_of_free (h.isName hx) hfrom hshort (h.isName hx) hto hshort hnode hnone hdown

/-- An entry whose name is taken stops the promotion. -/
theorem promoteEntry_of_taken (h : Promotable w d work entries s) (hmoved : Promoted d done s t)
    (hx : x ∈ Listing.names entries) (hnew : x ∉ done) (htaken : s.top.look (d ++ [x]) ≠ none) :
    ∃ text, x = Bytes.ofString text ∧ promoteEntry w x t = (.error (.destinationExists (w / text)), t) := by
  cases htext : Bytes.toString? x with
  | none => exact absurd htext (h.text x hx)
  | some text =>
    obtain rfl := Bytes.ofString_of_toString? htext
    obtain ⟨-, hto⟩ := h.finds hmoved hx
    obtain ⟨seen, hseen⟩ := Option.ne_none_iff_exists'.1 htaken
    have hlink (target : Bytes) : seen ≠ .link target := by
      rintro rfl
      exact h.taken_not_link target hseen
    have hseen' : t.top.look (d ++ [Bytes.ofString text]) = some seen := by
      rw [(hmoved.unmoved h.look_out hnew).1, hseen]
    refine ⟨text, rfl, ?_⟩
    simp only [promoteEntry, htext]
    exact movePath_of_present (Store.present_of_look (h.isName hx) hto (h.short _ hx) hseen' hlink)

/-! ## One entry after the other -/

/-- Entries are moved up in the order they are listed, up to the first whose name is taken. -/
theorem promoteEach_cases (h : Promotable w d work entries s) {listing : List Name} (hmoved : Promoted d done s t)
    (hlisted : ∀ x ∈ listing, x ∈ Listing.names entries) (hnodup : (done ++ listing).Nodup) :
    (∃ u, promoteListed.each w listing t = (.ok (), u) ∧ Promoted d (done ++ listing) s u) ∨
      ∃ moved text rest u, listing = moved ++ Bytes.ofString text :: rest ∧
        s.top.look (d ++ [Bytes.ofString text]) ≠ none ∧
        promoteListed.each w listing t = (.error (.destinationExists (w / text)), u) ∧
        Promoted d (done ++ moved) s u := by
  induction listing generalizing done t with
  | nil => exact .inl ⟨t, rfl, by rwa [List.append_nil]⟩
  | cons x rest ih =>
    have hx := hlisted x List.mem_cons_self
    have hnew : x ∉ done := fun hmem => (List.nodup_append.1 hnodup).2.2 x hmem x List.mem_cons_self rfl
    by_cases hfree : s.top.look (d ++ [x]) = none
    · obtain ⟨u, hentry, hstep⟩ := promoteEntry_of_free h hmoved hx hnew hfree
      rw [promoteListed.each, bind_of_ok _ hentry, List.append_cons]
      rw [List.append_cons] at hnodup
      obtain hall | ⟨moved, text, later, v, rfl, htaken, hrun, hpart⟩ :=
        ih hstep (fun y hy => hlisted y (List.mem_cons_of_mem _ hy)) hnodup
      · exact .inl hall
      · refine .inr ⟨x :: moved, text, later, v, rfl, htaken, hrun, ?_⟩
        rwa [List.append_cons]
    · obtain ⟨text, rfl, hentry⟩ := promoteEntry_of_taken h hmoved hx hnew hfree
      rw [promoteListed.each, bind_of_error _ hentry]
      exact .inr ⟨[], text, rest, t, rfl, hfree, rfl, by rwa [List.append_nil]⟩

/-! ## All entries -/

/-- A promotion moves all entries up, or it stops at one whose name is taken when it has moved those before it. -/
theorem promoteListed_cases (h : Promotable w d work entries s) {listing : List Name}
    (hlisting : listing.Perm (Listing.names entries)) :
    (∃ t, promoteListed w listing s = (.ok entries.length, t) ∧ (∀ x ∈ listing, work.look [x] = none) ∧
        Raised d (.dir entries) s t) ∨
      ∃ moved text rest t, listing = moved ++ Bytes.ofString text :: rest ∧ work.look [Bytes.ofString text] ≠ none ∧
        promoteListed w listing s = (.error (.destinationExists (w / text)), t) ∧ Promoted d moved s t := by
  have hsorted := (h.plain.get? h.generated).listing.1
  have hlength : listing.length = entries.length := by rw [hlisting.length_eq, Listing.names, List.length_map]
  obtain ⟨t, heach, hmoved⟩ | ⟨moved, text, rest, t, hsplit, htaken, heach, hmoved⟩ :=
    promoteEach_cases h (.nil d s) (fun x hx => hlisting.mem_iff.1 hx) (hlisting.nodup_iff.2 hsorted.nodup_names)
  · rw [List.nil_append] at hmoved
    have hall : ∀ x ∈ Listing.names entries, x ∈ listing := fun x hx => hlisting.mem_iff.2 hx
    obtain ⟨hnul, hfits, -⟩ := Store.reaches_of_isDir Layout.isName_generated h.isDir
    have hremoved : Files.removeDir (generatedDir w).bytes t = (.ok (), t.drop d generatedEntry) :=
      Files.removeDir_of_finds Layout.isName_generated ⟨(h.reaches hmoved).1, hnul, hfits⟩ (by decide)
        (h.emptied hmoved hall)
    have hfree (rest : List Name) (target : Bytes) : s.top.look (d ++ generatedEntry :: rest) ≠ some (.link target) := by
      rw [h.look]
      exact h.plain.linkFree _ target
    have hraised : Raised d (.dir entries) s (t.drop d generatedEntry) :=
      .of_promoted h.look_out h.get?_out hsorted (hmoved.perm hlisting)
        (hmoved.accords hfree)
    refine .inl ⟨t.drop d generatedEntry, ?_, fun x hx => ?_, hraised⟩
    · rw [promoteListed, bind_of_ok _ heach, bind_of_ok _ (ofFiles_eq_ok.2 hremoved), run_pure, hlength]
    · rw [← h.look]
      exact h.free_of_mem hmoved hx
  · rw [List.nil_append] at hmoved
    rw [h.look] at htaken
    refine .inr ⟨moved, text, rest, t, hsplit, htaken, ?_, hmoved⟩
    rw [promoteListed, bind_of_error _ heach]

/-- The entries are listed and moved up. -/
theorem promoteGenerated_eq_listed (h : Promotable w d work entries s) (order : Listing.Order) :
    promoteGenerated order w s =
      promoteListed w (order.arrange (generatedDir w).bytes (Listing.names entries)) s := by
  obtain ⟨hnul, hfits, -⟩ := Store.reaches_of_isDir Layout.isName_generated h.isDir
  have hfinds : s.Finds w Layout.generatedName d := ⟨(h.reaches (.nil d s)).1, hnul, hfits⟩
  refine promoteGenerated_of_nodeAt ?_
  rw [generatedDir, Store.nodeAt_div Layout.isName_generated hfinds (by decide) fun _ => h.taken_not_link,
    ← generatedEntry, h.get?_out]

/-- A generated entry stands as it was in one of the two directories only: it has been moved up, or it is where it
was, and so is what has its name one level higher. -/
def StandsOnce (d : List Name) (s t : Store) (x : Name) : Prop :=
  (∀ rest, t.top.look (d ++ x :: rest) = s.top.look (d ++ generatedEntry :: x :: rest) ∧
      t.top.look (d ++ generatedEntry :: x :: rest) = none) ∨
    t.top.look (d ++ [x]) = s.top.look (d ++ [x]) ∧
      ∀ rest, t.top.look (d ++ generatedEntry :: x :: rest) = s.top.look (d ++ generatedEntry :: x :: rest)

/-- What a promotion leaves that has stopped half way: every generated entry, everything else in the working
directory, and everything outside it. -/
structure Halted (d : List Name) (work : Node) (entries : Listing Node) (s t : Store) : Prop where
  cwd : t.cwd = s.cwd
  generated : ∀ x ∈ Listing.names entries, StandsOnce d s t x
  other : ∀ x, x ≠ generatedEntry → work.look [x] ≠ none → ∀ rest,
    t.top.look (d ++ x :: rest) = s.top.look (d ++ x :: rest)
  outside : ∀ p, ¬ Inside d p → t.top.look p = s.top.look p

theorem Promoted.halted (h : Promotable w d work entries s) (hmoved : Promoted d done s t) :
    Halted d work entries s t := by
  refine ⟨hmoved.cwd, fun x _ => ?_, fun x hx hstood rest => hmoved.elsewhere _ fun y hy more => ⟨?_, ?_⟩,
    fun p hp => hmoved.elsewhere p fun x _ rest => ⟨?_, ?_⟩⟩
  · by_cases hdone : x ∈ done
    · exact .inl fun rest => ⟨hmoved.moved x hdone rest, hmoved.gone x hdone rest⟩
    · exact .inr (hmoved.unmoved h.look_out hdone)
  · refine below_ne ?_ rest more
    rintro rfl
    rw [← h.look, h.free_of_mem hmoved hy] at hstood
    exact hstood rfl
  · exact below_ne hx _ _
  · rintro rfl
    exact hp ⟨x, rest, rfl⟩
  · rintro rfl
    exact hp ⟨generatedEntry, x :: rest, rfl⟩

/-- In whatever order the generated entries are listed, a promotion succeeds exactly if none of their names is taken
in the working directory. When it succeeds all of them have been moved up as they were and nothing else has changed;
otherwise it has stopped at a name that is taken and has lost nothing. -/
theorem promotion_loses_nothing (h : Promotable w d work entries s) :
    (∀ order : Listing.Order, promoteGenerated order w s =
        promoteListed w (order.arrange (generatedDir w).bytes (Listing.names entries)) s) ∧
      ∀ listing : List Name, listing.Perm (Listing.names entries) →
        ((∃ n t, promoteListed w listing s = (.ok n, t)) ↔ ∀ x ∈ Listing.names entries, work.look [x] = none) ∧
        (∀ n t, promoteListed w listing s = (.ok n, t) → n = entries.length ∧ Raised d (.dir entries) s t) ∧
        ∀ failure t, promoteListed w listing s = (.error failure, t) → Halted d work entries s t ∧
          ∃ text, Bytes.ofString text ∈ Listing.names entries ∧ work.look [Bytes.ofString text] ≠ none ∧
            failure = .destinationExists (w / text) := by
  refine ⟨promoteGenerated_eq_listed h, fun listing hlisting => ?_⟩
  obtain ⟨t, hrun, hfree, hraised⟩ | ⟨moved, text, rest, t, rfl, htaken, hrun, hmoved⟩ := promoteListed_cases h hlisting
  · rw [hrun]
    refine ⟨⟨fun _ x hx => hfree x (hlisting.mem_iff.2 hx), fun _ => ⟨_, _, rfl⟩⟩, fun n u heq => ?_,
      fun failure u heq => ?_⟩
    · obtain ⟨hn, rfl⟩ := outcome_inj.1 heq
      exact ⟨(Except.ok.inj hn).symm, hraised⟩
    · cases (outcome_inj.1 heq).1
  · have hmem : Bytes.ofString text ∈ Listing.names entries := hlisting.mem_iff.1 (by simp)
    rw [hrun]
    refine ⟨⟨fun ⟨n, u, heq⟩ => ?_, fun hfree => absurd (hfree _ hmem) htaken⟩, fun n u heq => ?_,
      fun failure u heq => ?_⟩
    · cases (outcome_inj.1 heq).1
    · cases (outcome_inj.1 heq).1
    · obtain ⟨hfailure, rfl⟩ := outcome_inj.1 heq
      exact ⟨hmoved.halted h, text, hmem, htaken, (Except.error.inj hfailure).symm⟩

/-- A generated package `a` and a generated module `b.py`. -/
def twoOutputs : Listing Node :=
  [(Bytes.ofString "a", .dir [(Bytes.ofString "m.py", .ofBytes (Bytes.ofString "m"))]),
    (Bytes.ofString "b.py", .ofBytes (Bytes.ofString "b"))]

/-- A working directory that holds a file besides the generated entries. -/
def workOfTwo : Node :=
  .dir [(Bytes.ofString "keep", .ofBytes (Bytes.ofString "k")), (generatedEntry, .dir twoOutputs)]

/-- The module is moved up first, and then the package. -/
theorem promotion_of_twoOutputs :
    ∃ t, promoteGenerated .descending ⟨"/w"⟩ ⟨.dir [(Bytes.ofString "w", workOfTwo)], []⟩ = (.ok 2, t) ∧
      Raised [Bytes.ofString "w"] (.dir twoOutputs) ⟨.dir [(Bytes.ofString "w", workOfTwo)], []⟩ t := by
  have h : Promotable ⟨"/w"⟩ [Bytes.ofString "w"] workOfTwo twoOutputs
      ⟨.dir [(Bytes.ofString "w", workOfTwo)], []⟩ :=
    { stands := rfl
      plain := plain_of_isPlain (by decide +kernel)
      generated := rfl
      isDir := by decide +kernel
      path := ⟨rfl, rfl⟩
      text := by decide +kernel
      short := by decide +kernel
      fits := by decide +kernel }
  obtain ⟨hlisted, hany⟩ := promotion_loses_nothing h
  obtain ⟨hiff, hraised, -⟩ := hany [Bytes.ofString "b.py", Bytes.ofString "a"] (by decide +kernel)
  obtain ⟨n, t, hrun⟩ := hiff.2 (by decide +kernel)
  obtain ⟨rfl, hdone⟩ := hraised n t hrun
  exact ⟨t, (hlisted .descending).trans hrun, hdone⟩

/-- Only entries whose paths the operating system accepts are moved up. -/
theorem fits_of_promoteEach {listing : List Name} (hnames : ∀ x ∈ listing, IsName x)
    (hrun : promoteListed.each w listing s = (.ok (), t)) :
    ∀ x ∈ listing, (generatedDir w).bytes.length + 1 + x.length < Route.lengthLimit := by
  induction listing generalizing s with
  | nil => simp
  | cons x rest ih =>
    obtain ⟨_, u, hentry, hrest⟩ := bind_eq_ok.1 hrun
    have hname := hnames x List.mem_cons_self
    intro y hy
    rcases List.mem_cons.1 hy with rfl | hy
    · rw [promoteEntry] at hentry
      cases htext : Bytes.toString? y with
      | none =>
        rw [htext] at hentry
        cases (outcome_inj.1 hentry).1
      | some text =>
        rw [htext] at hentry
        obtain rfl := Bytes.ofString_of_toString? htext
        obtain ⟨-, e, a, slash, d, b, slash', hsource, -⟩ := movePath_of_ok hentry
        obtain ⟨_, hfinds, -⟩ := (Store.place_div_eq_ok hname).1 hsource
        have hfits := hfinds.fits
        rwa [Path.length_bytes_div hname, generatedDir, Path.needsSlash_div Layout.isName_generated] at hfits
    · exact ih (fun y hy => hnames y (List.mem_cons_of_mem _ hy)) hrest y hy

/-- A promotion that succeeds has found the paths of all entries short enough. -/
theorem fits_of_promoteGenerated {order : Listing.Order} {n : Nat}
    (hnode : s.nodeAt true (generatedDir w).bytes = .ok (.dir entries))
    (hnames : ∀ x ∈ Listing.names entries, IsName x) (hrun : promoteGenerated order w s = (.ok n, t)) :
    ∀ x ∈ Listing.names entries, (generatedDir w).bytes.length + 1 + x.length < Route.lengthLimit := by
  rw [promoteGenerated_of_nodeAt hnode] at hrun
  obtain ⟨_, u, heach, -⟩ := bind_eq_ok.1 hrun
  intro x hx
  exact fits_of_promoteEach (fun y hy => hnames y (Listing.Order.mem_arrange.1 hy)) heach x
    (Listing.Order.mem_arrange.2 hx)

/-- A working directory in which only a generated package stands. -/
def workOfOne : Node := .dir [(generatedEntry, .dir [(Bytes.ofString "x", .emptyDir)])]

/-- The package stays where it is, or its directory does, though its name is free, if the working directory's path leads
through the package or has too many slashes. -/
theorem promotion_of_workOfOne :
    let s : Store := ⟨.dir [(Bytes.ofString "w", workOfOne)], []⟩
    workOfOne.Plain ∧ workOfOne.look [Bytes.ofString "x"] = none ∧
      (s.Reaches ⟨"/w/out/x/../.."⟩ [Bytes.ofString "w"] ∧
        (promoteGenerated .ascending ⟨"/w/out/x/../.."⟩ s).1 = .error (.io .notFound)) ∧
      s.Reaches (.slashed ⟨"/w"⟩ 4089) [Bytes.ofString "w"] ∧
        ¬ ∃ n t, promoteGenerated .ascending (.slashed ⟨"/w"⟩ 4089) s = (.ok n, t) := by
  intro s
  have hlength : (Path.slashed ⟨"/w"⟩ 4089).bytes.length = 2 + 4089 := by
    rw [Path.bytes_slashed, List.length_append, List.length_replicate]
    rfl
  have hout : (Bytes.ofString Layout.generatedName).length = 3 := by decide
  obtain ⟨hnul, -, hroute⟩ := Route.read_eq_ok
    (Route.read_slashed (p := ⟨"/w"⟩) (n := 4089) (by decide) (by decide) (by decide) (by decide))
  have hreaches : s.Reaches (.slashed ⟨"/w"⟩ 4089) [Bytes.ofString "w"] := by
    rw [Store.Reaches, ← hroute]
    exact ⟨rfl, rfl⟩
  refine ⟨plain_of_isPlain (by decide +kernel), rfl, ⟨⟨rfl, rfl⟩, rfl⟩, hreaches, ?_⟩
  rintro ⟨n, t, hrun⟩
  have hfinds : s.Finds (.slashed ⟨"/w"⟩ 4089) Layout.generatedName [Bytes.ofString "w"] := by
    refine ⟨hreaches, hnul, ?_⟩
    have hle := Path.length_bytes_div_le (p := .slashed ⟨"/w"⟩ 4089) Layout.isName_generated
    rw [hlength, hout] at hle
    rw [Route.lengthLimit]
    omega
  have hdir : s.top.look [Bytes.ofString "w", Bytes.ofString Layout.generatedName] = some .dir := rfl
  have hnode : s.nodeAt true (generatedDir (.slashed ⟨"/w"⟩ 4089)).bytes =
      .ok (.dir [(Bytes.ofString "x", .emptyDir)]) :=
    Store.nodeAt_div Layout.isName_generated hfinds (by decide) (by simp [hdir])
  -- the path of the directory is two bytes short of the limit, and that of its entry is not
  have hfits := fits_of_promoteGenerated hnode (by decide) hrun (Bytes.ofString "x") (by decide)
  have hx : (Bytes.ofString "x").length = 1 := by decide
  rw [generatedDir, Path.length_bytes_div Layout.isName_generated, hlength, hout, hx, Route.lengthLimit] at hfits
  omega

end Staging

end StubRelease
