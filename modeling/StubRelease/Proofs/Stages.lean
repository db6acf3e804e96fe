/-
# StubRelease.Proofs.Stages -- the stages of a run in a housed directory

Each stage of a run succeeds, or is refused because of one entry, as soon as its working directory is
housed and its inputs stand. What it leaves is said entry by entry, and nothing else in the store is
edited. No stage needs to know what stood in the working directory besides.
-/
import StubRelease.Pipeline
import StubRelease.Proofs.Archiving
import StubRelease.Proofs.Contents
import StubRelease.Proofs.Imitation
import StubRelease.Proofs.Staging

namespace StubRelease

open Sequence Node
open Imitation (tree outName packageName moduleName initName distName entryNames entryTexts)

variable {P : List Name → Prop} {s : Store} {w : Path} {d : List Name} {room : Nat}

/-! ## The archive -/

namespace Archive

theorem length_entryPath_le (dir : Bytes) (name : Name) :
    (entryPath dir name).length ≤ dir.length + 1 + name.length := by
  rw [entryPath]
  cases dir.getLast? with
  | none =>
    dsimp only
    omega
  | some b =>
    dsimp only
    split
    · rw [List.length_append]
      omega
    · rw [List.length_append, List.length_cons]
      omega

/-- Everything that is generated can be added to an archive. -/
theorem zipNode_tree (opened : Store) (name : Bytes) {path : Bytes}
    (hfits : path.length + 26 < Route.lengthLimit) : (zipNode opened name path tree).failure = none := by
  have htree : tree = .dir [(packageName, .dir [(initName,
      .file (.plain (Bytes.ofString Imitation.packageText)) false)]),
        (moduleName, .file (.plain (Bytes.ofString Imitation.moduleText)) false)] := rfl
  have hpackage : Bytes.toString? packageName = some "bpy" := by decide
  have hinit : Bytes.toString? initName = some "__init__.py" := by decide
  have hmodule : Bytes.toString? moduleName = some "mathutils.py" := by decide
  have hshort {p : Bytes} (hp : p.length ≤ path.length + 20) : tooLong p = false := by
    rw [tooLong, decide_eq_false_iff_not]
    omega
  have hlengths : packageName.length = 3 ∧ initName.length = 11 ∧ moduleName.length = 12 := by decide
  obtain ⟨hlength₁, hlength₂, hlength₃⟩ := hlengths
  have h₁ := length_entryPath_le path packageName
  have h₂ := length_entryPath_le (entryPath path packageName) initName
  have h₃ := length_entryPath_le path moduleName
  rw [htree]
  simp only [zipNode, zipEntries, hpackage, hinit, hmodule, hshort (p := path) (by omega),
    hshort (p := entryPath path packageName) (by omega),
    hshort (p := entryPath (entryPath path packageName) initName) (by omega),
    hshort (p := entryPath path moduleName) (by omega), Packed.one, Packed.followedBy, Bool.false_eq_true,
    if_false]

/-- What is generated holds no link, so what it is packed into does not depend on other files. -/
theorem zipNode_tree_congr (opened other : Store) (name path : Bytes) :
    zipNode opened name path tree = zipNode other name path tree := by
  have htree : tree = .dir [(packageName, .dir [(initName,
      .file (.plain (Bytes.ofString Imitation.packageText)) false)]),
        (moduleName, .file (.plain (Bytes.ofString Imitation.moduleText)) false)] := rfl
  rw [htree]
  simp only [zipNode, zipEntries]

end Archive

/-- The archive of what was generated in a working directory. -/
def Layout.archiveOf (l : Layout) (w : Path) : Node :=
  .file (.archive .zip (Archive.zipNode ⟨emptyDir, []⟩ (Bytes.ofString l.archiveRootName)
    (w / generatedName).bytes tree).members) false

/-- A file that was just put where neither a directory nor a link stood is moved to where no directory stands. -/
theorem Files.rename_put_of_finds {q p : Path} {text : String} {r : List Name} (hname : IsName (Bytes.ofString text))
    (hsource : s.Finds q text d) (hdest : s.Finds p text r) (hshort : (Bytes.ofString text).length ≤ Route.nameLimit)
    (hlink : ∀ target, s.top.look (d ++ [Bytes.ofString text]) ≠ some (.link target))
    (hnot : s.top.look (d ++ [Bytes.ofString text]) ≠ some .dir)
    (hreplaced : s.top.look (r ++ [Bytes.ofString text]) ≠ some .dir) (content : Content) (executable : Bool) :
    ∃ t, Files.rename (q / text).bytes (p / text).bytes (s.put d (Bytes.ofString text) (.file content executable)) =
        (.ok (), t) ∧
      (d ≠ r → t = (s.drop d (Bytes.ofString text)).put r (Bytes.ofString text) (.file content executable)) := by
  obtain ⟨v, hv⟩ : ∃ v, v = s.put d (Bytes.ofString text) (.file content executable) := ⟨_, rfl⟩
  have hkeeps : s.top.KeepsWays v.top := hv ▸ .put hnot hlink _
  have hcwd : v.cwd = s.cwd := hv ▸ rfl
  have hfound : v.top.get? (d ++ [Bytes.ofString text]) = some (.file content executable) := by
    rw [hv]
    exact get?_put_self hsource.reaches.dir _ _
  have hfrom := hsource.keeps hkeeps hcwd
  have hto := hdest.keeps hkeeps hcwd
  rw [← hv]
  by_cases hsame : d = r
  · subst hsame
    refine ⟨v, ?_, fun h => absurd rfl h⟩
    have hself : (d ++ [Bytes.ofString text]).isPrefixOf d = false := by
      rw [← Bool.not_eq_true, List.isPrefixOf_iff_prefix]
      exact not_entry_isPrefix _ _
    rw [Files.rename_of_places ((Store.place_div_eq_ok hname).2 ⟨d, hfrom, rfl⟩)
      ((Store.place_div_eq_ok hname).2 ⟨d, hto, rfl⟩) hshort hshort hfound, hself]
    simp
  · -- a directory is not below what is none
    have hdown : ¬ d ++ [Bytes.ofString text] <+: r := fun hat =>
      hnot (eq_of_isPrefix_of_look hnot hdest.reaches.dir hat ▸ hdest.reaches.dir)
    have hup : ¬ r ++ [Bytes.ofString text] <+: d := fun hat =>
      hreplaced (eq_of_isPrefix_of_look hreplaced hsource.reaches.dir hat ▸ hsource.reaches.dir)
    have hne : d ++ [Bytes.ofString text] ≠ r ++ [Bytes.ofString text] := fun heq =>
      hsame (List.append_inj_left' heq rfl)
    have hkept : v.top.look (r ++ [Bytes.ofString text]) = s.top.look (r ++ [Bytes.ofString text]) := by
      rw [hv]
      refine look_put_elsewhere s.top _ fun hat => ?_
      rcases List.prefix_concat_iff.1 hat with heq | hbelow
      · exact hne heq
      · exact hdown hbelow
    have hreplace : Files.mayReplace (.file content executable) (v.top.get? (r ++ [Bytes.ofString text])) = .ok () :=
      (Files.mayReplace_eq_ok_of_not_dir rfl).2 (hkept ▸ hreplaced)
    have hrename := Files.rename_of_finds hname hfrom hshort hname hto hshort hfound hdown hup hne hreplace
    rw [hv, Store.drop_put, ← hv] at hrename
    exact ⟨_, hrename, fun _ => rfl⟩

/-- A directory of modules is archived and the archive moved to its place, when the paths can be read, no directory
stands there, and neither a directory nor a link at the draft's place. -/
theorem Job.archiveGenerated_of_finds {σ : Type} {j : Job σ} {r : List Name} {u : Session σ}
    (hfrom : u.store.Finds w Layout.generatedName d) (hdraftFits : u.store.Finds w j.layout.archiveFileName d)
    (hto : u.store.Finds j.layout.rawModulesDir j.layout.archiveFileName r)
    (hshort : (Bytes.ofString j.layout.archiveFileName).length ≤ Route.nameLimit) {entries : Listing Node}
    (hentries : u.store.top.get? (d ++ [outName]) = some (.dir entries))
    (hpacked : ∀ opened, (j.layout.packed opened w (.dir entries)).failure = none)
    (hlink : ∀ target, u.store.top.look (d ++ [Bytes.ofString j.layout.archiveFileName]) ≠ some (.link target))
    (hdraft : u.store.top.look (d ++ [Bytes.ofString j.layout.archiveFileName]) ≠ some .dir)
    (hdest : u.store.top.look (r ++ [Bytes.ofString j.layout.archiveFileName]) ≠ some .dir) :
    ∃ (opened : Store) (t : Store), j.archiveGenerated w u = (.ok (), { u with store := t }) ∧
      (d ≠ r → t = (u.store.drop d (Bytes.ofString j.layout.archiveFileName)).put r
        (Bytes.ofString j.layout.archiveFileName)
          (.file (.archive .zip (j.layout.packed opened w (.dir entries)).members)
            (Files.executableOf (u.store.top.get? (d ++ [Bytes.ofString j.layout.archiveFileName]))))) := by
  have hname := j.layout.isName_archive
  have hne : outName ≠ Bytes.ofString j.layout.archiveFileName := (j.layout.archive_ne (by decide)).symm
  obtain ⟨opened, hzip⟩ := Archive.zipDirectory_of_finds Layout.isName_generated hname hne
    j.layout.archiveRootName hfrom (by decide) hdraftFits hshort hentries hlink hdraft
  have hnone := hpacked opened
  rw [Layout.packed] at hnone
  dsimp only at hzip
  rw [hnone] at hzip
  obtain ⟨t, hrename, ht⟩ := Files.rename_put_of_finds hname hdraftFits hto hshort hlink hdraft hdest
    (.archive .zip (j.layout.packed opened w (.dir entries)).members)
    (Files.executableOf (u.store.top.get? (d ++ [Bytes.ofString j.layout.archiveFileName])))
  refine ⟨opened, t, ?_, ht⟩
  have hmoved := ofFiles_eq_ok.2 hrename
  rw [archiveGenerated, Staging.generatedDir, Layout.draftArchivePath, ofWork_bind_of_ok _ hzip, Run.ofFiles, ofWork_eq,
    Layout.archivePath]
  rw [Layout.packed] at hmoved
  simp only [hmoved]

/-- The archive of what was generated is written and moved to its place, when the paths can be read and no
directory stands there. -/
theorem Job.archiveGenerated_eq {σ : Type} {j : Job σ} {r : List Name} {u : Session σ} (hu : u.store = s)
    (hfrom : s.Finds w Layout.generatedName d) (hdraftFits : s.Finds w j.layout.archiveFileName d)
    (hto : s.Finds j.layout.rawModulesDir j.layout.archiveFileName r)
    (hshort : (Bytes.ofString j.layout.archiveFileName).length ≤ Route.nameLimit)
    (hroom : (w / Layout.generatedName).bytes.length + 26 < Route.lengthLimit) (hdown : ¬ d <+: r)
    (htree : s.top.get? (d ++ [outName]) = some tree)
    (hdraft : s.top.look (d ++ [Bytes.ofString j.layout.archiveFileName]) = none)
    (hdest : s.top.look (r ++ [Bytes.ofString j.layout.archiveFileName]) ≠ some .dir) :
    ∃ t : Store, j.archiveGenerated w u = (.ok (), { u with store := t }) ∧
      t = (s.drop d (Bytes.ofString j.layout.archiveFileName)).put r (Bytes.ofString j.layout.archiveFileName)
        (j.layout.archiveOf w) := by
  subst hu
  obtain ⟨entries, hentries⟩ : ∃ entries, tree = .dir entries := ⟨_, rfl⟩
  obtain ⟨opened, t, hdone, ht⟩ := j.archiveGenerated_of_finds hfrom hdraftFits hto hshort (hentries ▸ htree)
    (fun opened => hentries ▸ Archive.zipNode_tree opened _ hroom) (by simp [hdraft]) (by simp [hdraft]) hdest
  refine ⟨t, hdone, ?_⟩
  rw [ht fun heq => hdown (heq ▸ List.prefix_rfl), look_eq_none.1 hdraft, ← hentries, Layout.packed,
    Archive.zipNode_tree_congr opened ⟨emptyDir, []⟩]
  rfl

/-- The places of an archive and of its draft. -/
def ArchivePlaces (l : Layout) (d r : List Name) (p : List Name) : Prop :=
  Below d [Bytes.ofString l.archiveFileName] p ∨ Below r [Bytes.ofString l.archiveFileName] p

/-- The archive of what was generated goes to its place, where no directory stands. -/
theorem Job.archiveGenerated_ends {σ : Type} {j : Job σ} {r : List Name} (h : s.Houses P w d 256)
    (hraw : s.Houses P j.layout.rawModulesDir r 256)
    (hlabel : (Bytes.ofString j.layout.label.text).length ≤ 229) (hdown : ¬ d <+: r) (hup : ¬ r <+: d)
    (htree : s.top.get? (d ++ [outName]) = some tree)
    (hdraft : s.top.look (d ++ [Bytes.ofString j.layout.archiveFileName]) = none)
    (hdest : s.top.look (r ++ [Bytes.ofString j.layout.archiveFileName]) ≠ some .dir) :
    Run.Ends (j.archiveGenerated w) s (.ok ()) [] fun t =>
      s.EditedIn (ArchivePlaces j.layout d r) t ∧
        t.top.look (d ++ [Bytes.ofString j.layout.archiveFileName]) = none ∧
        t.top.look (r ++ [Bytes.ofString j.layout.archiveFileName]) ≠ some .dir := by
  have hname := j.layout.isName_archive
  have hlength := j.layout.length_archive_le hlabel
  have hroom : (Bytes.ofString j.layout.archiveFileName).length < 256 := Nat.lt_succ_of_le hlength
  have hout : s.Houses P (w / Layout.generatedName) (d ++ [outName]) 26 :=
    h.div Layout.isName_generated (by decide) (look_eq_dir.2 ⟨_, htree⟩)
  intro u hu
  obtain ⟨t, harchived, ht⟩ := j.archiveGenerated_eq hu (h.finds Layout.isName_generated (by decide))
    (h.finds hname hroom) (hraw.finds hname hroom) hlength hout.fits hdown htree hdraft hdest
  refine ⟨_, harchived, by simp, ?_⟩
  show s.EditedIn (ArchivePlaces j.layout d r) t ∧ _
  rw [ht]
  have hdrop := Store.EditedIn.drop s d (Bytes.ofString j.layout.archiveFileName)
  have hput := Store.EditedIn.put (s.drop d (Bytes.ofString j.layout.archiveFileName)) r
    (Bytes.ofString j.layout.archiveFileName) (j.layout.archiveOf w)
  refine ⟨(hdrop.mono fun _ => .inl).trans (hput.mono fun _ => .inr), ?_, ?_⟩
  · rw [Store.top_put, look_put_elsewhere, Store.top_drop, look_drop]
    intro hat
    rcases List.prefix_concat_iff.1 hat with heq | hprefix
    · exact hup (List.append_inj_left' heq rfl ▸ List.prefix_rfl)
    · exact hup ((List.prefix_append _ _).trans hprefix)
  · have hstands : (s.drop d (Bytes.ofString j.layout.archiveFileName)).top.look r = some .dir := by
      rw [Store.top_drop, look_drop_elsewhere, hraw.dir]
      exact fun hat => hdown ((List.prefix_append _ _).trans hat)
    rw [Store.top_put, look_put hstands]
    simp [Layout.archiveOf, sight]

namespace Staging

/-! ## Promoting -/

/-- An entry of a housed directory is moved to where nothing stands in another one. -/
theorem movePath_free {q p : Path} {e : List Name} {room' : Nat} {other text : String}
    (hfrom : s.Houses P q e room') (hto : s.Houses P p d room) (hother : IsName (Bytes.ofString other))
    (hotherRoom : (Bytes.ofString other).length < room') (hname : IsName (Bytes.ofString text))
    (hroom : (Bytes.ofString text).length < room) {node : Node}
    (hfound : s.top.get? (e ++ [Bytes.ofString other]) = some node)
    (hnone : s.top.look (d ++ [Bytes.ofString text]) = none) (hdown : ¬ e ++ [Bytes.ofString other] <+: d) :
    movePath (q / other) (p / text) s =
      (.ok (), (s.drop e (Bytes.ofString other)).put d (Bytes.ofString text) node) :=
  movePath_of_free hother (hfrom.finds hother hotherRoom) (hfrom.shorter hotherRoom) hname (hto.finds hname hroom)
    (hto.shorter hroom) hfound hnone hdown

/-- One generated entry is moved up, to where nothing stands. -/
theorem promoteEntry_moves (h : s.Houses P w d room) (hroom : 30 < room) {n node : Node}
    (hn : s.top.get? (d ++ [outName]) = some n) {text : String} (hname : IsName (Bytes.ofString text))
    (hlength : (Bytes.ofString text).length < 26)
    (htext : Bytes.toString? (Bytes.ofString text) = some text)
    (hnode : n.get? [Bytes.ofString text] = some node) (hne : Bytes.ofString text ≠ outName)
    (hnone : s.top.look (d ++ [Bytes.ofString text]) = none) :
    ∃ t, promoteEntry w (Bytes.ofString text) s = (.ok (), t) ∧
      s.EditedIn (Below d [outName, Bytes.ofString text]) t ∧
      t.top.get? (d ++ [outName]) = some (n.drop [] (Bytes.ofString text)) ∧
      t.top.look (d ++ [Bytes.ofString text]) = some node.sight := by
  have hfound : s.top.get? (d ++ [outName] ++ [Bytes.ofString text]) = some node := by
    rw [get?_append, hn, Option.bind_some, hnode]
  have hdir : s.top.look (d ++ [outName]) = some .dir :=
    look_eq_dir_of_below (look_of_get? hfound)
  have hout : s.Houses P (w / Layout.generatedName) (d ++ [outName]) 26 :=
    h.div Layout.isName_generated (Nat.lt_of_le_of_lt (by decide) hroom) hdir
  have hdown : ¬ d ++ [outName] ++ [Bytes.ofString text] <+: d := by
    intro hat
    have hshorter := hat.length_le
    simp only [List.length_append, List.length_singleton] at hshorter
    omega
  have hmove := movePath_free hout h hname hlength hname (by omega) hfound hnone hdown
  have hdrop := Store.EditedIn.drop s (d ++ [outName]) (Bytes.ofString text)
  have hput := Store.EditedIn.put (s.drop (d ++ [outName]) (Bytes.ofString text)) d (Bytes.ofString text) node
  have hstands : (s.drop (d ++ [outName]) (Bytes.ofString text)).top.look d = some .dir := by
    rw [hdrop.look d fun hp => ?_, h.dir]
    exact not_entry_isPrefix d outName hp.inside.isPrefix
  refine ⟨(s.drop (d ++ [outName]) (Bytes.ofString text)).put d (Bytes.ofString text) node, ?_, ?_, ?_, ?_⟩
  · rw [promoteEntry, htext]
    exact hmove
  · refine .trans (hdrop.mono fun _ hp => ?_) (hput.mono fun _ hp => hp.mono (by simp))
    exact .of_entry List.mem_cons_self hp.inside.isPrefix
  · rw [hput.get?_entry (by simpa using hne.symm) []]
    have hdropped := get?_drop_below [] (Bytes.ofString text) hn
    rwa [List.append_nil] at hdropped
  · rw [Store.top_put, look_put hstands, look_nil]

/-- Generated entries are moved up one after the other, to where nothing stands. -/
theorem promoteEach_moves (h : s.Houses P w d room) (hroom : 30 < room) {n : Node}
    (hn : s.top.get? (d ++ [outName]) = some n) {listing : List Name} (hnodup : listing.Nodup)
    (hnames : ∀ x ∈ listing, IsName x ∧ x.length < 26 ∧ Bytes.toString? x ≠ none ∧ x ≠ outName)
    (hnodes : ∀ x ∈ listing, n.get? [x] ≠ none) (hfree : ∀ x ∈ listing, s.top.look (d ++ [x]) = none) :
    ∃ t, promoteListed.each w listing s = (.ok (), t) ∧ s.EditedIn (Below d (outName :: listing)) t ∧
      t.top.get? (d ++ [outName]) = some (listing.foldl (fun n x => n.drop [] x) n) ∧
      ∀ x ∈ listing, t.top.look (d ++ [x]) = n.look [x] := by
  induction listing generalizing s n with
  | nil => exact ⟨s, rfl, .refl s, hn, nofun⟩
  | cons x rest ih =>
    obtain ⟨hnotMem, hrest⟩ := List.nodup_cons.1 hnodup
    obtain ⟨hname, hlength, htext, hne⟩ := hnames x List.mem_cons_self
    obtain ⟨node, hnode⟩ := Option.ne_none_iff_exists'.1 (hnodes x List.mem_cons_self)
    obtain ⟨text, htext⟩ := Option.ne_none_iff_exists'.1 htext
    obtain rfl := Bytes.ofString_of_toString? htext
    obtain ⟨u, hfirst, hedited, hleft, hmoved⟩ :=
      promoteEntry_moves h hroom hn hname hlength htext hnode hne (hfree _ List.mem_cons_self)
    -- the other entries are where they were
    have hdiffer : ∀ y ∈ rest, y ≠ Bytes.ofString text := fun y hy heq => hnotMem (heq ▸ hy)
    have hkept : ∀ y ∈ rest, (n.drop [] (Bytes.ofString text)).get? [y] = n.get? [y] := fun y hy =>
      get?_drop_elsewhere n (by simp) (by simpa using (hdiffer y hy).symm)
    have hnot : ∀ y ∈ rest, y ∉ [outName, Bytes.ofString text] := fun y hy => by
      simpa using ⟨(hnames y (List.mem_cons_of_mem _ hy)).2.2.2, hdiffer y hy⟩
    obtain ⟨t, hlater, hedited', hleft', hmoved'⟩ := ih (h.after_below hedited) hleft hrest
      (fun y hy => hnames y (List.mem_cons_of_mem _ hy))
      (fun y hy => by rw [hkept y hy]; exact hnodes y (List.mem_cons_of_mem _ hy))
      (fun y hy => by rw [hedited.look_entry (hnot y hy) []]; exact hfree y (List.mem_cons_of_mem _ hy))
    refine ⟨t, by rw [promoteListed.each, bind_of_ok _ hfirst, hlater], ?_, hleft', ?_⟩
    · refine (hedited.mono fun p hp => hp.mono ?_).trans (hedited'.mono fun p hp => hp.mono ?_)
      · simp
      · simp only [List.mem_cons]
        exact fun y hy => hy.imp_right .inr
    · intro y hy
      rcases List.mem_cons.1 hy with rfl | hy
      · rw [hedited'.look_entry (by simpa using ⟨hne, hnotMem⟩) [], hmoved, look, hnode, Option.map_some]
      · rw [hmoved' y hy, look, hkept y hy, look]

variable {order : Listing.Order}

/-- What is promoted are the entries of the generated tree, in the order in which they are handed out. -/
theorem promoteGenerated_eq (h : s.Houses P w d room) (hroom : 30 < room)
    (htree : s.top.get? (d ++ [outName]) = some tree) :
    promoteGenerated order w s = promoteListed w (order.arrange (generatedDir w).bytes entryNames) s := by
  have hshort : outName.length < room := Nat.lt_of_le_of_lt (by decide) hroom
  have hfinds : s.Finds w Layout.generatedName d := h.finds Layout.isName_generated hshort
  have hdir : s.top.look (d ++ [outName]) = some .dir := look_eq_dir.2 ⟨_, htree⟩
  have hnode : s.nodeAt true (generatedDir w).bytes = .ok tree := by
    have hget : s.top.get? (d ++ [Bytes.ofString Layout.generatedName]) = some tree := htree
    have hlook : s.top.look (d ++ [Bytes.ofString Layout.generatedName]) = some .dir := hdir
    rw [generatedDir, Store.nodeAt_div Layout.isName_generated hfinds (h.shorter hshort) (by simp [hlook]), hget]
  exact promoteGenerated_of_nodeAt hnode

/-- What was generated is moved up to where nothing stands, and `out` goes. -/
theorem promoteGenerated_moves (h : s.Houses P w d room) (hroom : 30 < room)
    (htree : s.top.get? (d ++ [outName]) = some tree) (hfree : ∀ x ∈ entryNames, s.top.look (d ++ [x]) = none) :
    ∃ t, promoteGenerated order w s = (.ok 2, t) ∧ s.EditedIn (Below d (outName :: entryNames)) t ∧
      t.top.look (d ++ [outName]) = none ∧ ∀ x ∈ entryNames, t.top.look (d ++ [x]) = tree.look [x] := by
  have hperm := order.perm (generatedDir w).bytes entryNames
  have hnames : ∀ x ∈ entryNames, IsName x ∧ x.length < 26 ∧ Bytes.toString? x ≠ none ∧ x ≠ outName := by decide
  have hnodes : ∀ x ∈ entryNames, tree.get? [x] ≠ none := by decide
  obtain ⟨u, heach, hedited, hleft, hmoved⟩ := promoteEach_moves h hroom htree (hperm.nodup_iff.2 (by decide))
    (fun x hx => hnames x (hperm.mem_iff.1 hx)) (fun x hx => hnodes x (hperm.mem_iff.1 hx))
    (fun x hx => hfree x (hperm.mem_iff.1 hx))
  rw [Imitation.foldl_drop_tree hperm] at hleft
  have hbelow := hedited.mono (Q := Below d (outName :: entryNames)) fun p hp => hp.mono fun x hx =>
    List.mem_cons.2 ((List.mem_cons.1 hx).imp_right hperm.mem_iff.1)
  have hshort : outName.length < room := Nat.lt_of_le_of_lt (by decide) hroom
  have hhouse := h.after_below hbelow
  have hremove : Work.ofFiles (Files.removeDir (generatedDir w).bytes) u = (.ok (), u.drop d outName) :=
    ofFiles_eq_ok.2 (Files.removeDir_of_finds Layout.isName_generated
      (hhouse.finds Layout.isName_generated hshort) (hhouse.shorter hshort) hleft)
  have hdrop := Store.EditedIn.drop u d outName
  refine ⟨u.drop d outName, ?_, hbelow.trans (hdrop.mono fun p hp => hp.mono (by simp)), look_drop _ _ _ [], ?_⟩
  · rw [promoteGenerated_eq h hroom htree, promoteListed, bind_of_ok _ heach, bind_of_ok _ hremove, run_pure,
      hperm.length_eq]
    rfl
  · intro x hx
    rw [hdrop.look_entry (by simpa using (hnames x hx).2.2.2) [], hmoved x (hperm.mem_iff.2 hx)]

/-- One of the generated entries is handed out first. -/
theorem arrange_entryNames (order : Listing.Order) (path : Bytes) :
    ∃ name ∈ entryTexts, ∃ rest, order.arrange path entryNames = Bytes.ofString name :: rest := by
  have hperm := order.perm path entryNames
  cases hlisting : order.arrange path entryNames with
  | nil =>
    rw [hlisting] at hperm
    cases hperm.length_eq
  | cons x rest =>
    obtain ⟨name, hname, rfl⟩ := List.mem_map.1 (hperm.mem_iff.1 (hlisting ▸ List.mem_cons_self))
    exact ⟨name, hname, rest, rfl⟩

/-- Nothing is moved up where the generated entries stand already: the first of them is in the way. -/
theorem promoteGenerated_blocked (h : s.Houses P w d room) (hroom : 30 < room)
    (htree : s.top.get? (d ++ [outName]) = some tree)
    (hstand : ∀ x ∈ entryNames, s.top.look (d ++ [x]) = tree.look [x]) {name : String} {rest : List Name}
    (hlisting : order.arrange (generatedDir w).bytes entryNames = Bytes.ofString name :: rest) :
    promoteGenerated order w s = (.error (.destinationExists (w / name)), s) := by
  have hnames : ∀ x ∈ entryNames, IsName x ∧ x.length < 26 ∧ Bytes.toString? x ≠ none := by decide
  have hx : Bytes.ofString name ∈ entryNames :=
    (order.perm (generatedDir w).bytes entryNames).mem_iff.1 (hlisting ▸ List.mem_cons_self)
  obtain ⟨hname, hlength, htext⟩ := hnames _ hx
  obtain ⟨seen, hseen, hlink⟩ := Imitation.look_tree _ hx
  have hshort : (Bytes.ofString name).length < room := by omega
  have hpresent := Store.present_of_look hname (h.finds hname hshort) (h.shorter hshort)
    ((hstand _ hx).trans hseen) hlink
  have hentry : promoteEntry w (Bytes.ofString name) s = (.error (.destinationExists (w / name)), s) := by
    obtain ⟨text, htext⟩ := Option.ne_none_iff_exists'.1 htext
    obtain rfl := Bytes.ofString_injective (Bytes.ofString_of_toString? htext)
    rw [promoteEntry, htext]
    exact movePath_of_present hpresent
  rw [promoteGenerated_eq h hroom htree, hlisting, promoteListed, promoteListed.each,
    bind_of_error _ (bind_of_error _ hentry)]

/-! ## What a run reads -/

end Staging

/-- A file that can be read, whatever is edited in a region of the store. -/
def Store.Supplies (s : Store) (P : List Name → Prop) (q : Path) (text : String) : Prop :=
  ∃ e content executable, ¬ P (e ++ [Bytes.ofString text]) ∧
    s.top.look (e ++ [Bytes.ofString text]) = some (.file content executable) ∧
    ∀ t, s.EditedIn P t → t.Finds q text e

theorem Store.Supplies.after {t : Store} {q : Path} {text : String} (h : s.Supplies P q text)
    (hedited : s.EditedIn P t) : t.Supplies P q text := by
  obtain ⟨e, content, executable, hapart, hfile, hfinds⟩ := h
  exact ⟨e, content, executable, hapart, by rw [hedited.look _ hapart, hfile],
    fun u hu => hfinds u (hedited.trans hu)⟩

namespace Staging

theorem copyMetadataFile_copies {q : Path} {text : String} (h : s.Houses P w d room)
    (hname : IsName (Bytes.ofString text)) (hroom : (Bytes.ofString text).length < room)
    (hsupply : s.Supplies P q text) (hover : s.top.Writable (d ++ [Bytes.ofString text])) :
    ∃ t, copyMetadataFile w q text s = (.ok (), t) ∧ s.EditedIn (Below d [Bytes.ofString text]) t ∧
      t.top.Writable (d ++ [Bytes.ofString text]) := by
  obtain ⟨e, content, executable, hapart, hfile, hfinds⟩ := hsupply
  have hsource := hfinds s (.refl s)
  have hne : e ≠ d := by
    rintro rfl
    exact hapart (h.inside _ ⟨_, [], rfl⟩)
  have hrequire : Work.require (·.isFile (q / text).bytes) (.missingInput (q / text)) s = (.ok (), s) :=
    require_eq_ok.2 ⟨Store.isFile_of_look hname hsource (h.shorter hroom) hfile, rfl⟩
  obtain ⟨t, hcopied, hedited, hwritable⟩ := h.copyFile hname hroom hsource hfile hover hne
  refine ⟨t, ?_, hedited, hwritable⟩
  rw [copyMetadataFile, bind_of_ok _ hrequire, ofFiles_eq_ok]
  exact hcopied

/-- Files that can be read are copied where nothing stands or files. -/
theorem copyEach_copies {c : Config} (names : List String) (h : s.Houses P w d room)
    (hnames : ∀ name ∈ names, IsName (Bytes.ofString name) ∧ (Bytes.ofString name).length < room)
    (hsupply : ∀ name ∈ names, s.Supplies P c.scriptDir name)
    (hover : ∀ name ∈ names, s.top.Writable (d ++ [Bytes.ofString name])) :
    ∃ t, copyMetadata.each w c names s = (.ok (), t) ∧ s.EditedIn (Below d (names.map Bytes.ofString)) t ∧
      ∀ name ∈ names, t.top.Writable (d ++ [Bytes.ofString name]) := by
  induction names generalizing s with
  | nil => exact ⟨s, rfl, .refl s, by simp⟩
  | cons name rest ih =>
    obtain ⟨hname, hroom⟩ := hnames name List.mem_cons_self
    obtain ⟨u, hcopied, hedited, hwritable⟩ := copyMetadataFile_copies h hname hroom
      (hsupply name List.mem_cons_self) (hover name List.mem_cons_self)
    have hkept (other : String) (hother : s.top.Writable (d ++ [Bytes.ofString other])) :
        u.top.Writable (d ++ [Bytes.ofString other]) := by
      by_cases heq : Bytes.ofString other = Bytes.ofString name
      · rwa [heq]
      · rwa [Writable, hedited.look_entry (by simpa using heq) []]
    obtain ⟨t, hrest, hedited', hwritable'⟩ := ih (h.after_below hedited)
      (fun other hother => hnames other (List.mem_cons_of_mem _ hother))
      (fun other hother => (hsupply other (List.mem_cons_of_mem _ hother)).after
        (hedited.mono fun _ hp => h.inside _ hp.inside))
      (fun other hother => hkept other (hover other (List.mem_cons_of_mem _ hother)))
    refine ⟨t, ?_, ?_, fun other hother => ?_⟩
    · rw [copyMetadata.each, bind_of_ok _ hcopied, hrest]
    · exact (hedited.mono fun _ hp => hp.mono (by simp)).trans
        (hedited'.mono fun _ hp => hp.mono fun _ => List.mem_cons_of_mem _)
    · by_cases hin : other ∈ rest
      · exact hwritable' other hin
      · obtain rfl : other = name := (List.mem_cons.1 hother).resolve_right hin
        have hnot : Bytes.ofString other ∉ rest.map Bytes.ofString := by
          intro hmem
          obtain ⟨twin, htwin, heq⟩ := List.mem_map.1 hmem
          exact hin (Bytes.ofString_injective heq ▸ htwin)
        rwa [Writable, hedited'.look_entry hnot []]

/-- The readme is converted into a file. -/
theorem convertReadme_ends (order : Listing.Order) {c : Config} {q : Path} {text : String} (h : s.Houses P w d room)
    (hroom : 30 < room) (hreadme : c.readme = q / text) (hname : IsName (Bytes.ofString text))
    (hshort : (Bytes.ofString text).length ≤ Route.nameLimit) (hsupply : s.Supplies P q text)
    (hover : s.top.Writable (d ++ [Bytes.ofString Call.convertedReadme])) :
    Run.Ends (convertReadme (Imitation.executor none order) w c) s (.ok ()) [.readme c w] fun t =>
      s.EditedIn (Below d [Bytes.ofString Call.convertedReadme]) t ∧
        t.top.Writable (d ++ [Bytes.ofString Call.convertedReadme]) ∧ (s.top.Plain → t.top.Plain) := by
  obtain ⟨e, content, executable, -, hfile, hfinds⟩ := hsupply
  have hrequire : Work.require (·.isFile c.readme.bytes) (.missingInput c.readme) s = (.ok (), s) :=
    require_eq_ok.2 ⟨by rw [hreadme]; exact Store.isFile_of_look hname (hfinds s (.refl s)) hshort hfile, rfl⟩
  have hconverted : IsName (Bytes.ofString Call.convertedReadme) := by decide
  obtain ⟨t, hwritten, hedited, hafter⟩ := h.writeFile hconverted (Nat.lt_of_le_of_lt (by decide) hroom)
    (.plain (Bytes.ofString Imitation.readmeText)) hover
  have heffect := (congrFun (Imitation.effect_readme c w) s).trans hwritten
  exact Run.Ends.ofWork_bind hrequire (Imitation.callChecked_ends heffect ⟨hedited, hafter⟩)

end Staging

/-! ## The setup script -/

namespace Job

variable {order : Listing.Order} {j : Job (List Call)} (hj : j.executor = Imitation.executor none order)

include hj

/-- Both distributions of a release are built in `dist`, where nothing stood. -/
theorem runSetup_builds (h : s.Houses P w d room) (hroom : 37 < room)
    (hnone : s.top.look (d ++ [distName]) = none) :
    Run.Ends (j.runSetup w SetupCommand.forRelease) s (.ok ())
      [.setup j.config .sdist w, .setup j.config .bdistWheel w] fun t =>
        s.EditedIn (Below d [distName]) t ∧ t.top.get? (d ++ [distName]) = some Imitation.distributions ∧
          (s.top.Plain → t.top.Plain) := by
  have hlengths : (Bytes.ofString Imitation.sdistName).length = 22 ∧
      (Bytes.ofString Imitation.wheelName).length = 32 := by decide
  obtain ⟨hsdistLength, hwheelLength⟩ := hlengths
  obtain ⟨u, hsource, hedited, hfirst, hplain⟩ := Imitation.writeDist_leaves h Imitation.isName_sdist (by omega)
    (.inl ⟨hnone, rfl⟩) rfl
  obtain ⟨t, hwheel, hedited', hboth, hplain'⟩ := Imitation.writeDist_leaves (h.after_below hedited)
    Imitation.isName_wheel (by omega) (.inr hfirst) (by decide)
  rw [← Imitation.effect_sdist j.config] at hsource
  rw [← Imitation.effect_bdistWheel j.config] at hwheel
  simp only [SetupCommand.forRelease, runSetup, hj]
  refine .progress_bind _ _ (Imitation.callChecked_bind hsource ?_)
  exact .progress_bind _ _ (Imitation.callChecked_bind hwheel (.pure ⟨hedited.trans hedited', hboth, fun hs =>
    hplain' (hplain hs)⟩))

/-- A development install makes one call, which changes nothing. -/
theorem runSetup_installs :
    Run.Ends (j.runSetup w [.develop]) s (.ok ()) [.setup j.config .develop w] (· = s) := by
  have hcall := congrFun (Imitation.effect_develop j.config w) s
  simp only [runSetup, hj]
  exact .progress_bind _ _ (Imitation.callChecked_bind hcall (.pure rfl))

end Job

/-! ## Publishing -/

namespace Staging

variable {q : Path} {e : List Name} {text : String}

/-- The directory of the distributions is made, or found, beside the working directory. -/
theorem publishDist_eq (h : s.Houses P w d 256) (hrelease : s.Houses P q e 256)
    (hname : IsName (Bytes.ofString text)) (hlength : (Bytes.ofString text).length < 50) (hup : ¬ e <+: d)
    (hdist : s.top.look (d ++ [distName]) = some .dir)
    (hversion : s.top.look (e ++ [Bytes.ofString text]) = none ∨
      s.top.look (e ++ [Bytes.ofString text]) = some .dir) :
    ∃ u, publishDist w (q / text) s = (do
        movePath (w / Layout.distName) (q / text / Layout.distName)
        pure (q / text / Layout.distName) : Work Path) u ∧
      s.EditedIn (Below e [Bytes.ofString text]) u ∧ u.Houses P w d 256 ∧
      u.Houses P (q / text) (e ++ [Bytes.ofString text]) 100 ∧
      u.top.look (d ++ [distName]) = some .dir ∧
      u.top.look (e ++ [Bytes.ofString text] ++ [distName]) =
        s.top.look (e ++ [Bytes.ofString text] ++ [distName]) := by
  have hapart : ∀ p, p <+: d ++ [distName] → ¬ Below e [Bytes.ofString text] p := by
    rintro p hp ⟨name, -, hat⟩
    rcases List.prefix_concat_iff.1 (hat.trans hp) with heq | hprefix
    · exact hup (List.append_inj_left' heq rfl ▸ List.prefix_rfl)
    · exact hup ((List.prefix_append _ _).trans hprefix)
  have hrequire : Work.require (·.isDir (w / Layout.distName).bytes) (.missingInput (w / Layout.distName)) s =
      (.ok (), s) :=
    require_eq_ok.2 ⟨Store.isDir_of_look Layout.isName_dist (h.finds Layout.isName_dist (by decide)) (by decide)
      hdist, rfl⟩
  obtain ⟨u, hmade, hedited, hstands, hbelow⟩ := Store.Finds.makeDirs hname
    (hrelease.finds hname (by omega)) (hrelease.shorter (by omega)) hversion
  have hdir : u.top.look d = some .dir := by
    rw [hedited.look d (hapart d (List.prefix_append _ _)), h.dir]
  refine ⟨u, ?_, hedited, h.after (hedited.mono fun _ hp => hrelease.inside _ hp.inside) hdir,
    (hrelease.after_below hedited).div hname (by omega) hstands, ?_, ?_⟩
  · rw [publishDist, bind_of_ok _ hrequire, bind_of_ok _ (ofFiles_eq_ok.2 hmade)]
  · rw [hedited.look _ (hapart _ List.prefix_rfl), hdist]
  · rw [List.append_assoc, look, look]
    exact congrArg _ (hbelow distName [])

/-- Distributions are published where none stand. -/
theorem publishDist_moves (h : s.Houses P w d 256) (hrelease : s.Houses P q e 256)
    (hname : IsName (Bytes.ofString text)) (hlength : (Bytes.ofString text).length < 50)
    (hdown : ¬ d <+: e) (hup : ¬ e <+: d) (hdist : s.top.look (d ++ [distName]) = some .dir)
    (hversion : s.top.look (e ++ [Bytes.ofString text]) = none ∨
      s.top.look (e ++ [Bytes.ofString text]) = some .dir)
    (hfree : s.top.look (e ++ [Bytes.ofString text] ++ [distName]) = none) :
    ∃ t, publishDist w (q / text) s = (.ok (q / text / Layout.distName), t) ∧
      s.EditedIn (fun p => Below d [distName] p ∨ Below e [Bytes.ofString text] p) t ∧
      t.top.look (e ++ [Bytes.ofString text]) = some .dir ∧
      t.top.look (e ++ [Bytes.ofString text] ++ [distName]) = some .dir := by
  obtain ⟨u, hpublish, hedited, hwork, hhouse, hdist', hfree'⟩ :=
    publishDist_eq h hrelease hname hlength hup hdist hversion
  rw [hfree] at hfree'
  obtain ⟨entries, hentries⟩ := look_eq_dir.1 hdist'
  have hapart : ¬ d ++ [distName] <+: e ++ [Bytes.ofString text] := by
    intro hat
    rcases List.prefix_concat_iff.1 ((List.prefix_append _ _).trans hat) with heq | hprefix
    · exact hup (heq ▸ List.prefix_append _ _)
    · exact hdown hprefix
  have hmove := movePath_free hwork hhouse Layout.isName_dist (by decide) Layout.isName_dist (by decide) hentries
    hfree' hapart
  have hdrop := Store.EditedIn.drop u d distName
  have hput := Store.EditedIn.put (u.drop d distName) (e ++ [Bytes.ofString text]) distName (.dir entries)
  have hstands : (u.drop d distName).top.look (e ++ [Bytes.ofString text]) = some .dir := by
    rw [Store.top_drop, look_drop_elsewhere _ hapart, hhouse.dir]
  refine ⟨(u.drop d distName).put (e ++ [Bytes.ofString text]) distName (.dir entries), ?_, ?_, ?_,
    look_put hstands _ _ []⟩
  · rw [hpublish, bind_of_ok _ hmove]
    rfl
  · refine .trans (hedited.mono fun _ => .inr) (.trans (hdrop.mono fun _ => .inl) (hput.mono fun _ hp => .inr ?_))
    exact .of_entry List.mem_cons_self hp.inside.isPrefix
  · rw [hput.look _ fun hp => not_inside_self _ hp.inside, hstands]

/-- Distributions are not published where some stand already. -/
theorem publishDist_blocked (h : s.Houses P w d 256) (hrelease : s.Houses P q e 256)
    (hname : IsName (Bytes.ofString text)) (hlength : (Bytes.ofString text).length < 50) (hup : ¬ e <+: d)
    (hdist : s.top.look (d ++ [distName]) = some .dir)
    (hstands : s.top.look (e ++ [Bytes.ofString text] ++ [distName]) = some .dir) :
    ∃ t, publishDist w (q / text) s = (.error (.destinationExists (q / text / Layout.distName)), t) ∧
      s.EditedIn (Below e [Bytes.ofString text]) t ∧ t.top.look (e ++ [Bytes.ofString text]) = some .dir ∧
      t.top.look (e ++ [Bytes.ofString text] ++ [distName]) = some .dir := by
  obtain ⟨u, hpublish, hedited, -, hhouse, -, hsame⟩ := publishDist_eq h hrelease hname hlength hup hdist
    (.inr (look_eq_dir_of_below hstands))
  rw [hstands] at hsame
  have hpresent := Store.present_of_look Layout.isName_dist (hhouse.finds Layout.isName_dist (by decide))
    (by decide) hsame (by simp)
  refine ⟨u, ?_, hedited, hhouse.dir, hsame⟩
  rw [hpublish, bind_of_error _ (movePath_of_present hpresent)]

/-- Distributions stand where they are published afterwards, moved there or not. -/
theorem publishDist_ends {free : Prop} [Decidable free] (h : s.Houses P w d 256)
    (hrelease : s.Houses P q e 256) (hname : IsName (Bytes.ofString text))
    (hlength : (Bytes.ofString text).length < 50) (hdown : ¬ d <+: e) (hup : ¬ e <+: d)
    (hdist : s.top.look (d ++ [distName]) = some .dir)
    (hversion : s.top.look (e ++ [Bytes.ofString text]) = none ∨
      s.top.look (e ++ [Bytes.ofString text]) = some .dir)
    (hfree : s.top.look (e ++ [Bytes.ofString text] ++ [distName]) = if free then none else some .dir) :
    ∃ t, publishDist w (q / text) s = (if free then .ok (q / text / Layout.distName)
        else .error (.destinationExists (q / text / Layout.distName)), t) ∧
      s.EditedIn (fun p => Below d [distName] p ∨ Below e [Bytes.ofString text] p) t ∧
      t.top.look (e ++ [Bytes.ofString text]) = some .dir ∧
      t.top.look (e ++ [Bytes.ofString text] ++ [distName]) = some .dir := by
  by_cases hcase : free
  · simp only [hcase, if_true] at hfree ⊢
    exact publishDist_moves h hrelease hname hlength hdown hup hdist hversion hfree
  · simp only [hcase, if_false] at hfree ⊢
    obtain ⟨t, hpublish, hedited, hstands⟩ := publishDist_blocked h hrelease hname hlength hup hdist hfree
    exact ⟨t, hpublish, hedited.mono fun _ => .inr, hstands⟩

end Staging

/-! ## Generating and staging -/

/-- The files that staging writes into a working directory. -/
def Staging.writtenNames : List String := Config.metadataNames ++ [Call.convertedReadme]

/-- A directory in which a run can generate and stage: in `out` stands nothing or what is generated, no
draft of an archive is left, and where files are written stand files or nothing. -/
structure Stageable (s : Store) (d : List Name) : Prop where
  out : s.top.look (d ++ [outName]) = none ∨ s.top.get? (d ++ [outName]) = some tree
  drafts : ∀ l : Layout, s.top.look (d ++ [Bytes.ofString l.archiveFileName]) = none
  written : ∀ name ∈ Staging.writtenNames, s.top.Writable (d ++ [Bytes.ofString name])

/-- The entries that every staging changes in its working directory. -/
def Staging.stagedNames : List Name :=
  [outName, packageName, moduleName] ++ writtenNames.map Bytes.ofString

/-- The entries of a working directory that a run changes before it calls the setup script. -/
def Layout.stagedNames (l : Layout) : List Name :=
  Bytes.ofString l.archiveFileName :: Staging.stagedNames

/-- Where a run edits the store before it calls the setup script. -/
def Layout.StagedIn (l : Layout) (d r p : List Name) : Prop :=
  Below d l.stagedNames p ∨ Below r [Bytes.ofString l.archiveFileName] p

namespace Job

/-- The inputs of a job can be read, whatever is edited in a region of the store. -/
structure Supplied {σ : Type} (j : Job σ) (P : List Name → Prop) (s : Store) : Prop where
  metadata : ∀ name ∈ Config.metadataNames, s.Supplies P j.config.scriptDir name
  readme : ∃ q text, j.config.readme = q / text ∧ IsName (Bytes.ofString text) ∧
    (Bytes.ofString text).length ≤ Route.nameLimit ∧ s.Supplies P q text

theorem Supplied.after {σ : Type} {j : Job σ} {t : Store} (h : j.Supplied P s) (hedited : s.EditedIn P t) :
    j.Supplied P t where
  metadata name hname := (h.metadata name hname).after hedited
  readme := by
    obtain ⟨q, text, heq, hname, hshort, hsupply⟩ := h.readme
    exact ⟨q, text, heq, hname, hshort, hsupply.after hedited⟩

/-- Where a run stands that has archived what it generated. -/
structure HasArchived (l : Layout) (P : List Name → Prop) (w : Path) (d r : List Name) (s t : Store) :
    Prop where
  edited : s.EditedIn (fun p => Below d [outName] p ∨ ArchivePlaces l d r p) t
  houses : t.Houses P w d 256
  out : t.top.get? (d ++ [outName]) = some tree
  drafts : ∀ l' : Layout, t.top.look (d ++ [Bytes.ofString l'.archiveFileName]) = none
  archives : ∀ name, t.top.look (r ++ [name]) ≠ some .dir

/-- After the generator's step and the archiving one, the generated entries and no draft stand in the working
directory. -/
theorem HasArchived.of_steps {l : Layout} {q : Path} {r : List Name} {u t : Store} (h : s.Houses P w d 256)
    (hraw : s.Houses P q r 256) (hdown : ¬ d <+: r) (hup : ¬ r <+: d)
    (hdrafts : ∀ l' : Layout, u.top.look (d ++ [Bytes.ofString l'.archiveFileName]) = none)
    (harchives : ∀ name, u.top.look (r ++ [name]) ≠ some .dir) (hedited : s.EditedIn (Below d [outName]) u)
    (htree : u.top.get? (d ++ [outName]) = some tree) (hplaces : u.EditedIn (ArchivePlaces l d r) t)
    (hdraft : t.top.look (d ++ [Bytes.ofString l.archiveFileName]) = none)
    (hdest : t.top.look (r ++ [Bytes.ofString l.archiveFileName]) ≠ some .dir) : HasArchived l P w d r s t := by
  have hhouse := h.after_below hedited
  have hnotRaw (p : List Name) (hp : d <+: p) : ¬ Below r [Bytes.ofString l.archiveFileName] p := by
    rintro ⟨name, -, hat⟩
    exact not_isPrefix_of_apart hdown hup hp ((List.prefix_append _ _).trans hat)
  constructor
  case edited => exact (hedited.mono fun _ => .inl).trans (hplaces.mono fun _ => .inr)
  case houses =>
    refine hhouse.after (hplaces.mono fun p hp => ?_) ?_
    · exact hp.elim (fun hp => h.inside _ hp.inside) fun hp => hraw.inside _ hp.inside
    · rw [hplaces.look, hhouse.dir]
      rintro (hp | hp)
      · exact not_inside_self _ hp.inside
      · exact hnotRaw _ List.prefix_rfl hp
  case out =>
    rw [hplaces.get?, htree]
    rintro q hq (hp | hp)
    · have hne : Bytes.ofString l.archiveFileName ≠ outName := l.archive_ne (by decide)
      exact Below.not_of_entry (by simpa using hne.symm) hq hp
    · exact hnotRaw q ((List.prefix_append _ _).trans hq) hp
  case drafts =>
    intro l'
    by_cases heq : Bytes.ofString l'.archiveFileName = Bytes.ofString l.archiveFileName
    · rw [heq, hdraft]
    · rw [hplaces.look, hdrafts]
      rintro (hp | hp)
      · exact Below.not_of_entry (by simpa using heq) List.prefix_rfl hp
      · exact hnotRaw _ (List.prefix_append _ _) hp
  case archives =>
    intro name
    by_cases heq : name = Bytes.ofString l.archiveFileName
    · rw [heq]
      exact hdest
    · rw [hplaces.look]
      · exact harchives name
      · rintro (⟨_, -, hat⟩ | hp)
        · exact not_isPrefix_of_apart hdown hup ((List.prefix_append _ _).trans hat) (List.prefix_append _ _)
        · exact Below.not_of_entry (by simpa using heq) List.prefix_rfl hp

variable {order : Listing.Order} {j : Job (List Call)} (hj : j.executor = Imitation.executor none order) {r : List Name}

include hj

/-- What a run goes on with when it has generated and archived. -/
theorem generateAndStage_from (mode : Mode) (h : s.Houses P w d 256)
    (hraw : s.Houses P j.layout.rawModulesDir r 256)
    (hlabel : (Bytes.ofString j.layout.label.text).length ≤ 229) (hdown : ¬ d <+: r) (hup : ¬ r <+: d)
    (hstage : Stageable s d) (harchives : ∀ name, s.top.look (r ++ [name]) ≠ some .dir)
    {result : Except Failure Path} {calls : List Call} {after : Store → Prop}
    (hrest : ∀ t, HasArchived j.layout P w d r s t → Run.Ends (do
      let _ ← Run.ofWork (Staging.promoteGenerated j.executor.order w)
      Run.ofWork (Staging.copyMetadata w j.config)
      j.progress Progress.converting
      Staging.convertReadme j.executor w j.config
      pure j.layout.archivePath) t result calls after) :
    Run.Ends (j.generateAndStage mode w) s result
      (.generator j.config mode j.layout.version j.sourceDir j.blenderDir w :: calls) after := by
  obtain ⟨u, hgenerated, hedited, htree, -⟩ := Imitation.generate_leaves h (by decide) hstage.out
  rw [← Imitation.effect_generator j.config mode j.layout.version j.sourceDir j.blenderDir] at hgenerated
  have hnotOut : ∀ p, r <+: p → ¬ Below d [outName] p := by
    rintro p hp ⟨name, -, hat⟩
    exact not_isPrefix_of_apart hdown hup ((List.prefix_append _ _).trans hat) hp
  have hdrafts (l : Layout) : u.top.look (d ++ [Bytes.ofString l.archiveFileName]) = none := by
    have hne : Bytes.ofString l.archiveFileName ≠ outName := l.archive_ne (by decide)
    rw [hedited.look_entry (by simpa using hne) [], hstage.drafts]
  have harchives' (name : Name) : u.top.look (r ++ [name]) ≠ some .dir := by
    rw [hedited.look _ (hnotOut _ (List.prefix_append _ _))]
    exact harchives name
  have hraw' : u.Houses P j.layout.rawModulesDir r 256 :=
    hraw.after (hedited.mono fun _ hp => h.inside _ hp.inside) (by
      rw [hedited.look _ (hnotOut _ List.prefix_rfl), hraw.dir])
  have harchive := archiveGenerated_ends (j := j) (h.after_below hedited) hraw' hlabel hdown hup htree
    (hdrafts j.layout) (harchives' _)
  rw [generateAndStage, hj]
  refine .progress_bind _ _ (Imitation.callChecked_bind hgenerated (.progress_bind _ _ ?_))
  refine harchive.bind_silent fun t ht => ?_
  rw [hj] at hrest
  obtain ⟨hplaces, hdraft, hdest⟩ := ht
  exact hrest t (.of_steps h hraw hdown hup hdrafts harchives' hedited htree hplaces hdraft hdest)

/-- Where a run stands that has staged what it generated, or found that it cannot. -/
structure HasStaged (l : Layout) (d r : List Name) (s t : Store) : Prop where
  edited : s.EditedIn (l.StagedIn d r) t
  stageable : Stageable t d
  archives : ∀ name, t.top.look (r ++ [name]) ≠ some .dir
  generated : ∀ x ∈ entryNames, t.top.look (d ++ [x]) = tree.look [x]

omit hj in
/-- Archiving is not seen at other entries of the working directory. -/
theorem HasArchived.look_entry {l : Layout} {t : Store} (h : HasArchived l P w d r s t) (hdown : ¬ d <+: r)
    (hup : ¬ r <+: d) {name : Name} (hout : name ≠ outName) (harchive : Bytes.ofString l.archiveFileName ≠ name) :
    t.top.look (d ++ [name]) = s.top.look (d ++ [name]) := by
  refine h.edited.look _ ?_
  rintro (hp | hp | ⟨_, -, hat⟩)
  · exact Below.not_of_entry (by simpa using hout) List.prefix_rfl hp
  · exact Below.not_of_entry (by simpa using harchive.symm) List.prefix_rfl hp
  · exact not_isPrefix_of_apart hdown hup (List.prefix_append _ _) ((List.prefix_append _ _).trans hat)

omit hj in
/-- Archiving is not seen where the generated entries are moved to. -/
theorem HasArchived.look_generated {l : Layout} {t : Store} (h : HasArchived l P w d r s t) (hdown : ¬ d <+: r)
    (hup : ¬ r <+: d) {x : Name} (hx : x ∈ entryNames) : t.top.look (d ++ [x]) = s.top.look (d ++ [x]) := by
  have hapart : ∀ x ∈ entryNames, x ≠ outName ∧ x.length ≤ 22 := by decide
  exact h.look_entry hdown hup (hapart x hx).1 (l.archive_ne (hapart x hx).2)

omit hj in
/-- Archiving leaves alone where a run writes files. -/
theorem HasArchived.writable {l : Layout} {t : Store} (h : HasArchived l P w d r s t) (hdown : ¬ d <+: r)
    (hup : ¬ r <+: d) (hstage : Stageable s d) :
    ∀ name ∈ Staging.writtenNames, t.top.Writable (d ++ [Bytes.ofString name]) := by
  have hapart : ∀ name ∈ Staging.writtenNames, Bytes.ofString name ≠ outName ∧
      (Bytes.ofString name).length ≤ 22 := by decide
  intro name hname
  obtain ⟨hne, hlength⟩ := hapart name hname
  rw [Writable, h.look_entry hdown hup hne (l.archive_ne hlength)]
  exact hstage.written name hname

omit hj in
/-- What was archived is among what a run stages. -/
theorem HasArchived.editedIn {l : Layout} {t : Store} (h : HasArchived l P w d r s t) :
    s.EditedIn (l.StagedIn d r) t := by
  refine h.edited.mono ?_
  rintro p (hp | hp | hp)
  · exact .inl (hp.mono (by simp [Layout.stagedNames, Staging.stagedNames]))
  · exact .inl (hp.mono (by simp [Layout.stagedNames]))
  · exact .inr hp

omit hj in
/-- What is left when the generated entries were moved up and the files were written. -/
theorem HasArchived.staged {l : Layout} {t₁ t₂ t₃ : Store} (h : HasArchived l P w d r s t₁) (hdown : ¬ d <+: r)
    (hup : ¬ r <+: d) (hpromoted : t₁.EditedIn (Below d (outName :: entryNames)) t₂)
    (hwritten : t₂.EditedIn (Below d (Staging.writtenNames.map Bytes.ofString)) t₃)
    (hout : t₂.top.look (d ++ [outName]) = none) (hgenerated : ∀ x ∈ entryNames, t₂.top.look (d ++ [x]) = tree.look [x])
    (hwritable : ∀ name ∈ Staging.writtenNames, t₃.top.Writable (d ++ [Bytes.ofString name])) :
    HasStaged l d r s t₃ := by
  have hinside : t₁.EditedIn (Below d Staging.stagedNames) t₃ :=
    (hpromoted.mono fun _ hp => hp.mono fun _ => List.mem_append_left _).trans
      (hwritten.mono fun _ hp => hp.mono fun _ => List.mem_append_right _)
  have hshort : ∀ name ∈ Staging.stagedNames, name.length ≤ 22 := by decide
  have happart : ∀ x ∈ entryNames, x ∉ Staging.writtenNames.map Bytes.ofString := by decide
  refine ⟨h.editedIn.trans (hinside.mono fun _ hp => .inl (hp.mono fun _ => List.mem_cons_of_mem _)),
    ⟨?_, fun l' => ?_, hwritable⟩, fun name => ?_, fun x hx => ?_⟩
  · exact .inl (by rw [hwritten.look_entry (by decide) [], hout])
  · rw [hinside.look_entry (fun hmem => l'.archive_ne (hshort _ hmem) rfl) [], h.drafts]
  · rw [hinside.look]
    · exact h.archives name
    · rintro ⟨_, -, hat⟩
      exact not_isPrefix_of_apart hdown hup ((List.prefix_append _ _).trans hat) (List.prefix_append _ _)
  · rw [hwritten.look_entry (happart x hx) [], hgenerated x hx]

/-- A run stages what it generates where no entry of that name stands. -/
theorem generateAndStage_ends (mode : Mode) (h : s.Houses P w d 256)
    (hraw : s.Houses P j.layout.rawModulesDir r 256)
    (hlabel : (Bytes.ofString j.layout.label.text).length ≤ 229) (hdown : ¬ d <+: r) (hup : ¬ r <+: d)
    (hsupplied : j.Supplied P s) (hstage : Stageable s d)
    (harchives : ∀ name, s.top.look (r ++ [name]) ≠ some .dir)
    (hfree : ∀ x ∈ entryNames, s.top.look (d ++ [x]) = none) :
    Run.Ends (j.generateAndStage mode w) s (.ok j.layout.archivePath)
      [.generator j.config mode j.layout.version j.sourceDir j.blenderDir w, .readme j.config w]
      (HasStaged j.layout d r s) := by
  refine generateAndStage_from hj mode h hraw hlabel hdown hup hstage harchives fun t₁ h₁ => ?_
  -- the generated entries
  have hfree₁ (x : Name) (hx : x ∈ entryNames) : t₁.top.look (d ++ [x]) = none := by
    rw [h₁.look_generated hdown hup hx, hfree x hx]
  obtain ⟨t₂, hpromoted, hedited₂, hout₂, hgenerated₂⟩ :=
    Staging.promoteGenerated_moves h₁.houses (by decide) h₁.out hfree₁
  have hhouse₂ := h₁.houses.after_below hedited₂
  -- the metadata
  have hapart : ∀ name ∈ Staging.writtenNames, Bytes.ofString name ∉ outName :: entryNames := by decide
  have hwritten₂ (name : String) (hname : name ∈ Staging.writtenNames) :
      t₂.top.Writable (d ++ [Bytes.ofString name]) := by
    rw [Writable, hedited₂.look_entry (hapart name hname) []]
    exact h₁.writable hdown hup hstage name hname
  have hsupplied₂ : j.Supplied P t₂ := by
    refine hsupplied.after ((h₁.edited.mono fun p hp => ?_).trans
      (hedited₂.mono fun _ hp => h.inside _ hp.inside))
    rcases hp with hp | hp | hp
    · exact h.inside _ hp.inside
    · exact h.inside _ hp.inside
    · exact hraw.inside _ hp.inside
  obtain ⟨t₃, hcopied, hedited₃, hwritten₃⟩ := Staging.copyEach_copies (c := j.config) Config.metadataNames hhouse₂
    (by decide) hsupplied₂.metadata fun name hname => hwritten₂ name (List.mem_append_left _ hname)
  -- the readme
  have hsupplied₃ := hsupplied₂.after (hedited₃.mono fun _ hp => h.inside _ hp.inside)
  obtain ⟨q, text, hreadme, hname, htext, hsupply⟩ := hsupplied₃.readme
  have hover₃ : t₃.top.Writable (d ++ [Bytes.ofString Call.convertedReadme]) := by
    rw [Writable, hedited₃.look_entry (by decide) []]
    exact hwritten₂ _ (by decide)
  have hconvert := Staging.convertReadme_ends order (hhouse₂.after_below hedited₃) (by decide) hreadme hname htext
    hsupply hover₃
  refine .ofWork_bind hpromoted (.ofWork_bind hcopied (.progress_bind _ _ ?_))
  rw [hj]
  refine hconvert.bind fun t₄ h₄ => .pure ?_
  obtain ⟨hedited₄, hwritable₄, -⟩ := h₄
  refine h₁.staged hdown hup hedited₂ ?_ hout₂ hgenerated₂ fun name hname => ?_
  · exact (hedited₃.mono fun _ hp => hp.mono (by decide)).trans (hedited₄.mono fun _ hp => hp.mono (by decide))
  · rcases List.mem_append.1 hname with hmetadata | hreadme
    · have hne : ∀ name ∈ Config.metadataNames, Bytes.ofString name ∉ [Bytes.ofString Call.convertedReadme] := by
        decide
      rw [Writable, hedited₄.look_entry (hne name hmetadata) []]
      exact hwritten₃ name hmetadata
    · obtain rfl := List.mem_singleton.1 hreadme
      exact hwritable₄

/-- A run that finds the entries where it would move them stops after it has generated and archived. -/
theorem generateAndStage_blocked (mode : Mode) (h : s.Houses P w d 256)
    (hraw : s.Houses P j.layout.rawModulesDir r 256)
    (hlabel : (Bytes.ofString j.layout.label.text).length ≤ 229) (hdown : ¬ d <+: r) (hup : ¬ r <+: d)
    (hstage : Stageable s d) (harchives : ∀ name, s.top.look (r ++ [name]) ≠ some .dir)
    (hstand : ∀ x ∈ entryNames, s.top.look (d ++ [x]) = tree.look [x]) {name : String} {rest : List Name}
    (hlisting : j.executor.order.arrange (Staging.generatedDir w).bytes entryNames = Bytes.ofString name :: rest) :
    Run.Ends (j.generateAndStage mode w) s (.error (.destinationExists (w / name)))
      [.generator j.config mode j.layout.version j.sourceDir j.blenderDir w] (HasStaged j.layout d r s) := by
  refine generateAndStage_from hj mode h hraw hlabel hdown hup hstage harchives fun t ht => ?_
  have hstand' (x : Name) (hx : x ∈ entryNames) : t.top.look (d ++ [x]) = tree.look [x] := by
    rw [ht.look_generated hdown hup hx, hstand x hx]
  have hblocked := Staging.promoteGenerated_blocked ht.houses (by decide) ht.out hstand' hlisting
  have hstaged : HasStaged j.layout d r s t :=
    ⟨ht.editedIn, ⟨.inr ht.out, ht.drafts, ht.writable hdown hup hstage⟩, ht.archives, hstand'⟩
  exact .bind_error (.ofWork hblocked hstaged)

omit hj in
/-- Staging leaves the working directory where it is. -/
theorem HasStaged.houses {l : Layout} {q : Path} {t : Store} (hstaged : HasStaged l d r s t)
    (h : s.Houses P w d 256) (hraw : s.Houses P q r 256) (hup : ¬ r <+: d) : t.Houses P w d 256 := by
  refine h.after (hstaged.edited.mono fun p hp => ?_) ?_
  · exact hp.elim (fun hp => h.inside _ hp.inside) fun hp => hraw.inside _ hp.inside
  · rw [hstaged.edited.look, h.dir]
    rintro (hp | ⟨_, -, hat⟩)
    · exact not_inside_self _ hp.inside
    · exact hup ((List.prefix_append _ _).trans hat)

end Job

end StubRelease
