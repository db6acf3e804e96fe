/-
# StubRelease.Proofs.Imitation -- what the imitated tools do

Called in a directory that its path houses, each imitated tool succeeds and changes one entry of the
directory. The generator leaves the same tree in `out`, whether `out` is missing or holds that tree from
an earlier call (`generate_leaves`), and no link.
-/
import Mathlib.Data.List.Permutation
import StubRelease.Proofs.Ends
import StubRelease.Proofs.Layout
import StubRelease.Proofs.Tree.Houses
import StubRelease.Tool.Imitation

namespace StubRelease

open Sequence Node

/-- A path of two steps is one step after the other. -/
theorem Path.div_div (p : Path) {a b : String} (ha : isAbsolute ⟨a⟩ = false) (hb : isAbsolute ⟨b⟩ = false)
    (hab : isAbsolute ⟨a ++ "/" ++ b⟩ = false) {last : Char} (hlast : a.toList.getLast? = some last)
    (hslash : last ≠ '/') : p / (a ++ "/" ++ b) = p / a / b := by
  have hends (front : String) : needsSlash ⟨front ++ a⟩ = true := by
    have hend : (front ++ a).toList.getLast? = some last := by
      rw [String.toList_append, List.getLast?_append, hlast]
      rfl
    simp only [needsSlash, hend]
    simp [hslash]
  rw [div_eq (p / a), join, hb, div_eq, join, hab, div_eq, join, ha]
  cases p.needsSlash with
  | true =>
    simp only [Bool.false_eq_true, if_false, if_true, hends]
    simp only [String.append_assoc]
  | false =>
    simp only [Bool.false_eq_true, if_false, hends, if_true]
    simp only [String.append_assoc]

namespace Imitation

variable {P : List Name → Prop} {s : Store} {w : Path} {d : List Name} {room : Nat}

/-! ## Names -/

/-- The package and the module that are generated. -/
def packageName : Name := Bytes.ofString "bpy"

def moduleName : Name := Bytes.ofString "mathutils.py"

def initName : Name := Bytes.ofString "__init__.py"

def outName : Name := Bytes.ofString Layout.generatedName

/-- The entries of what is generated. -/
def entryTexts : List String := ["bpy", "mathutils.py"]

def entryNames : List Name := entryTexts.map Bytes.ofString

/-- The generated tree over another one. -/
def treeOver (n : Node) : Node :=
  (n.put [packageName] initName (.file (.plain (Bytes.ofString packageText)) false)).put [] moduleName
    (.file (.plain (Bytes.ofString moduleText)) false)

/-- What is generated. -/
def tree : Node := treeOver (emptyDir.put [] packageName emptyDir)

/-- Generating over what was generated leaves the same tree. -/
theorem treeOver_tree : treeOver tree = tree := rfl

/-- What is generated are the package and the module. -/
theorem look_tree : ∀ x ∈ entryNames, ∃ seen, tree.look [x] = some seen ∧ ∀ target, seen ≠ .link target := by
  have hentries : tree.look [packageName] = some .dir ∧
      tree.look [moduleName] = some (.file (.plain (Bytes.ofString moduleText)) false) := ⟨rfl, rfl⟩
  intro x hx
  obtain rfl | rfl : x = packageName ∨ x = moduleName := by
    simpa [entryNames, entryTexts, packageName, moduleName] using hx
  · exact ⟨_, hentries.1, by simp⟩
  · exact ⟨_, hentries.2, by simp⟩

/-- In either order the entries make up the tree. -/
theorem foldl_drop_tree {listing : List Name} (h : listing.Perm entryNames) :
    listing.foldl (fun n x => n.drop [] x) tree = emptyDir := by
  have hlistings : entryNames.permutations' = [[packageName, moduleName], [moduleName, packageName]] := rfl
  have hmem := List.mem_permutations'.2 h
  rw [hlistings] at hmem
  obtain rfl | rfl := List.mem_pair.1 hmem
  · rfl
  · rfl

theorem isName_package : IsName packageName := by decide

theorem isName_module : IsName moduleName := by decide

theorem isName_init : IsName initName := by decide

theorem plain_tree : tree.Plain :=
  ((Plain.emptyDir.put [] isName_package .emptyDir).put _ isName_init (.file _ _)).put _ isName_module (.file _ _)

/-! ## The generator -/

theorem package_init (p : Path) : p / "bpy/__init__.py" = p / "bpy" / "__init__.py" := by
  have htext : "bpy/__init__.py" = "bpy" ++ "/" ++ "__init__.py" := by decide
  rw [htext]
  have hlast : "bpy".toList.getLast? = some 'y' := by decide
  exact p.div_div (by decide) (by decide) (by decide) hlast (by decide)

/-- A file without the permission to be executed is written over by one without it. -/
theorem writeFile_plain {p : Path} {text : String} (h : s.Houses P p d room)
    (hname : IsName (Bytes.ofString text)) (hroom : (Bytes.ofString text).length < room) (content : Content)
    (hover : s.top.get? (d ++ [Bytes.ofString text]) = none ∨
      ∃ old, s.top.get? (d ++ [Bytes.ofString text]) = some (.file old false)) :
    Files.writeFile (p / text).bytes content s =
      (.ok (), s.put d (Bytes.ofString text) (.file content false)) := by
  have hwritable : s.top.Writable (d ++ [Bytes.ofString text]) := by
    rcases hover with hnone | ⟨old, hfile⟩
    · exact .inl (look_eq_none.2 hnone)
    · exact .inr ⟨old, false, look_eq_file.2 hfile⟩
  rw [Files.writeFile_of_finds hname (h.finds hname hroom) (h.shorter hroom) content hwritable.ne_link
    hwritable.ne_dir]
  rcases hover with hnone | ⟨old, hfile⟩
  · rw [hnone]
    rfl
  · rw [hfile]
    rfl

/-- A file is written into the tree that stands at a place. -/
theorem writeFile_into {p : Path} {text : String} {place rest : List Name} {n : Node}
    (h : s.Houses P p (place ++ rest) room) (hname : IsName (Bytes.ofString text))
    (hroom : (Bytes.ofString text).length < room) (content : Content) (hn : s.top.get? place = some n)
    (hover : n.get? (rest ++ [Bytes.ofString text]) = none ∨
      ∃ old, n.get? (rest ++ [Bytes.ofString text]) = some (.file old false)) :
    ∃ t, Files.writeFile (p / text).bytes content s = (.ok (), t) ∧ s.EditedIn (Inside place) t ∧
      t.top.get? place = some (n.put rest (Bytes.ofString text) (.file content false)) ∧
      (s.top.Plain → t.top.Plain) := by
  have hat : s.top.get? (place ++ rest ++ [Bytes.ofString text]) = n.get? (rest ++ [Bytes.ofString text]) := by
    rw [List.append_assoc, get?_append, hn, Option.bind_some]
  rw [← hat] at hover
  refine ⟨_, writeFile_plain h hname hroom content hover, ?_, get?_put_below rest _ _ hn, fun hs => ?_⟩
  · exact (Store.EditedIn.put s _ _ _).mono fun _ hp => inside_of_isPrefix (List.prefix_append _ _) hp.inside
  · exact hs.put _ hname (.file _ _)

/-- The generator fills the directory that it has made or found. -/
theorem generate_fills (h : s.Houses P w d room) (hroom : 30 < room) {n : Node}
    (hn : s.top.get? (d ++ [outName]) = some n) (hpackage : n.look [packageName] = some .dir)
    (hinit : n.get? [packageName, initName] = none ∨
      ∃ old, n.get? [packageName, initName] = some (.file old false))
    (hmodule : n.get? [moduleName] = none ∨ ∃ old, n.get? [moduleName] = some (.file old false)) :
    ∃ t, (do
        writeText (w / Layout.generatedName / "bpy/__init__.py") packageText
        writeText (w / Layout.generatedName / "mathutils.py") moduleText : Files Unit) s = (.ok (), t) ∧
      s.EditedIn (Below d [outName]) t ∧ t.top.get? (d ++ [outName]) = some (treeOver n) ∧
      (s.top.Plain → t.top.Plain) := by
  have hinner : s.top.look (d ++ [outName] ++ [packageName]) = some .dir := by
    rw [look_append, hn]
    exact hpackage
  have hout : s.Houses P (w / Layout.generatedName) (d ++ [outName]) 26 :=
    h.div Layout.isName_generated (Nat.lt_of_le_of_lt (by decide) hroom) (look_eq_dir_of_below hinner)
  have hpackageHouse : s.Houses P (w / Layout.generatedName / "bpy") (d ++ [outName] ++ [packageName]) 22 :=
    hout.div isName_package (by decide) hinner
  obtain ⟨t, hfirst, hedited, hfilled, hplain⟩ :=
    writeFile_into hpackageHouse isName_init (by decide) (.plain (Bytes.ofString packageText)) hn hinit
  -- the first file is not in the way of the second
  have hapart : (n.put [packageName] initName (.file (.plain (Bytes.ofString packageText)) false)).get?
      [moduleName] = n.get? [moduleName] := get?_put_elsewhere n _ (by decide) (by decide)
  rw [← hapart] at hmodule
  have hhouse : t.Houses P (w / Layout.generatedName) (d ++ [outName] ++ []) 26 := by
    rw [List.append_nil]
    exact hout.after_inside hedited
  obtain ⟨u, hsecond, hedited', hlast, hplain'⟩ :=
    writeFile_into hhouse isName_module (by decide) (.plain (Bytes.ofString moduleText)) hfilled hmodule
  refine ⟨u, ?_, ?_, hlast, fun hs => hplain' (hplain hs)⟩
  · rw [package_init, run_bind, writeText, hfirst]
    exact hsecond
  · exact (hedited.trans hedited').mono fun _ hp => .of_entry List.mem_cons_self hp.isPrefix

/-- The generator leaves its tree in `out`, where nothing stood or its tree. -/
theorem generate_leaves (h : s.Houses P w d room) (hroom : 30 < room)
    (hbefore : s.top.look (d ++ [outName]) = none ∨ s.top.get? (d ++ [outName]) = some tree) :
    ∃ t, generate (w / Layout.generatedName) s = (.ok (), t) ∧
      s.EditedIn (Below d [outName]) t ∧ t.top.get? (d ++ [outName]) = some tree ∧
      (s.top.Plain → t.top.Plain) := by
  rcases hbefore with hnone | htree
  · have hmade := h.makeDirs_of_missing Layout.isName_generated isName_package
      (Nat.lt_of_le_of_lt (by decide) hroom) hnone
    have hout := Store.EditedIn.put s d outName emptyDir
    have hstands : (s.put d outName emptyDir).top.get? (d ++ [outName]) = some emptyDir :=
      get?_put_self h.dir _ _
    have hpackage := Store.EditedIn.put (s.put d outName emptyDir) (d ++ [outName]) packageName emptyDir
    have hempty := get?_put_below [] packageName emptyDir hstands
    rw [List.append_nil] at hempty
    have hedited := hout.trans (hpackage.mono fun _ hp => .of_entry List.mem_cons_self hp.inside.isPrefix)
    obtain ⟨t, hfilled, hedited', htree, hplain⟩ := generate_fills (h.after_below hedited) hroom hempty rfl
      (.inl rfl) (.inl rfl)
    refine ⟨t, ?_, hedited.trans hedited', htree, fun hs => hplain ?_⟩
    · rw [generate, run_bind, hmade]
      exact hfilled
    · exact (hs.put _ Layout.isName_generated .emptyDir).put _ isName_package .emptyDir
  · obtain ⟨t, hfilled, hedited, htree', hplain⟩ := generate_fills h hroom htree rfl (.inr ⟨_, rfl⟩)
      (.inr ⟨_, rfl⟩)
    rw [treeOver_tree] at htree'
    refine ⟨t, ?_, hedited, htree', hplain⟩
    have hdir : s.top.look (d ++ [outName]) = some .dir := look_eq_dir.2 ⟨_, htree⟩
    have hinner : s.top.look (d ++ [outName] ++ [packageName]) = some .dir := by
      rw [look_append, htree]
      rfl
    have hhouse : s.Houses P (w / Layout.generatedName) (d ++ [outName]) 26 :=
      h.div Layout.isName_generated (Nat.lt_of_le_of_lt (by decide) hroom) hdir
    have hmade := Files.makeDirs_of_finds isName_package (hhouse.finds isName_package (by decide))
      (by decide) (by rw [← packageName, hinner]; simp)
    rw [← packageName, hinner] at hmade
    rw [generate, run_bind, hmade]
    exact hfilled

/-! ## The setup script -/

def distName : Name := Bytes.ofString Layout.distName

/-- What an imitated distribution holds. -/
def distribution (name : String) : Node := .file (.plain (Bytes.ofString name)) false

/-- The distributions of a release. -/
def distributions : Node :=
  (emptyDir.put [] (Bytes.ofString sdistName) (distribution sdistName)).put [] (Bytes.ofString wheelName)
    (distribution wheelName)

theorem isName_sdist : IsName (Bytes.ofString sdistName) := by decide

theorem isName_wheel : IsName (Bytes.ofString wheelName) := by decide

/-- A distribution is added to `dist`, which is made if nothing stands there. -/
theorem writeDist_leaves (h : s.Houses P w d room) {name : String} (hname : IsName (Bytes.ofString name))
    (hroom : (Bytes.ofString name).length + 5 < room) {entries : Listing Node}
    (hdist : s.top.look (d ++ [distName]) = none ∧ entries = [] ∨
      s.top.get? (d ++ [distName]) = some (.dir entries))
    (hover : (Node.dir entries).get? [Bytes.ofString name] = none) :
    ∃ t, writeDist w name s = (.ok (), t) ∧ s.EditedIn (Below d [distName]) t ∧
      t.top.get? (d ++ [distName]) = some ((Node.dir entries).put [] (Bytes.ofString name) (distribution name)) ∧
      (s.top.Plain → t.top.Plain) := by
  have hlength : (Bytes.ofString Layout.distName).length = 4 := by decide
  have hshort : (Bytes.ofString Layout.distName).length < room := by omega
  obtain ⟨u, hmade, hedited, hstands, hplain⟩ : ∃ u, Files.makeDirs (w / Layout.distName).bytes s = (.ok (), u) ∧
      s.EditedIn (Below d [distName]) u ∧ u.top.get? (d ++ [distName]) = some (.dir entries) ∧
      (s.top.Plain → u.top.Plain) := by
    have hmakes := Files.makeDirs_of_finds Layout.isName_dist (h.finds Layout.isName_dist hshort) (h.shorter hshort)
    rw [← distName] at hmakes
    rcases hdist with ⟨hnone, rfl⟩ | hstands
    · rw [hnone] at hmakes
      exact ⟨_, hmakes (by simp), .put s d _ .emptyDir, get?_put_self h.dir _ _, fun hs =>
        hs.put _ Layout.isName_dist .emptyDir⟩
    · rw [look_eq_dir.2 ⟨entries, hstands⟩] at hmakes
      exact ⟨s, hmakes (by simp), .refl s, hstands, id⟩
  have hhouse : u.Houses P (w / Layout.distName) (d ++ [distName]) ((Bytes.ofString name).length + 1) :=
    (h.after_below hedited).div Layout.isName_dist (by omega) (look_eq_dir.2 ⟨entries, hstands⟩)
  have hfree : u.top.get? (d ++ [distName] ++ [Bytes.ofString name]) = none := by
    rw [get?_append, hstands, Option.bind_some, hover]
  have hwritten := writeFile_plain hhouse hname (Nat.lt_succ_self _) (.plain (Bytes.ofString name)) (.inl hfree)
  have hput := get?_put_below [] (Bytes.ofString name) (distribution name) hstands
  rw [List.append_nil] at hput
  refine ⟨u.put (d ++ [distName]) (Bytes.ofString name) (distribution name), ?_, hedited.trans ?_, hput, fun hs =>
    (hplain hs).put _ hname (.file _ _)⟩
  · rw [writeDist, run_bind, hmade]
    exact hwritten
  · exact (Store.EditedIn.put u (d ++ [distName]) _ _).mono fun _ hp =>
      .of_entry List.mem_cons_self hp.inside.isPrefix

/-! ## Effects of the calls -/

/-- What a path of an entry ends in. -/
theorem isSuffix_div (p : Path) {text : String} (h : Path.isAbsolute ⟨text⟩ = false) :
    text.toList.isSuffixOf (p / text).text.toList = true := by
  rw [List.isSuffixOf_iff_suffix, Path.div_eq, Path.join, h]
  cases p.needsSlash with
  | true => exact ⟨p.text.toList ++ ['/'], by simp⟩
  | false => exact ⟨p.text.toList, by simp⟩

theorem effect_generator (c : Config) (mode : Mode) (version : Version) (sourceDir blenderDir cwd : Path) :
    effect (Call.generator c mode version sourceDir blenderDir cwd).cwd
      (Call.generator c mode version sourceDir blenderDir cwd).arguments =
        generate (cwd / Layout.generatedName) := by
  have hscript : Config.generatorName.toList.isSuffixOf c.generatorScript.text.toList = true :=
    isSuffix_div c.scriptDir (by decide)
  have hout : effect.generatorOutput? (Call.generator c mode version sourceDir blenderDir cwd).arguments =
      some Layout.generatedName := by
    simp [Call.generator, Call.generatorArguments, effect.generatorOutput?, hscript, List.getLast?_cons]
  rw [effect, hout]
  rfl

theorem effect_readme (c : Config) (cwd : Path) :
    effect (Call.readme c cwd).cwd (Call.readme c cwd).arguments =
      writeText (cwd / Call.convertedReadme) readmeText := rfl

theorem effect_sdist (c : Config) (cwd : Path) :
    effect (Call.setup c .sdist cwd).cwd (Call.setup c .sdist cwd).arguments = writeDist cwd sdistName := rfl

theorem effect_bdistWheel (c : Config) (cwd : Path) :
    effect (Call.setup c .bdistWheel cwd).cwd (Call.setup c .bdistWheel cwd).arguments =
      writeDist cwd wheelName := rfl

theorem effect_develop (c : Config) (cwd : Path) :
    effect (Call.setup c .develop cwd).cwd (Call.setup c .develop cwd).arguments = pure () := rfl

/-- A call ends well when what it does to the files succeeds. -/
theorem callChecked_ends {order : Listing.Order} {c : Call} {t : Store} {after : Store → Prop}
    (h : effect c.cwd c.arguments s = (.ok (), t)) (hafter : after t) :
    Run.Ends (Run.callChecked (executor none order) c) s (.ok ()) [c] after := by
  have hwork : Work.ofFiles (effect c.cwd c.arguments) s = (.ok (), t) := ofFiles_eq_ok.2 h
  refine Run.Ends.callChecked (fun tools => ?_) hafter
  simp [executor, hwork]

/-- A call whose effect succeeds comes before the rest. -/
theorem callChecked_bind {order : Listing.Order} {α : Type} {c : Call} {t : Store} {f : Unit → Run (List Call) α}
    {result : Except Failure α} {more : List Call} {after : Store → Prop}
    (h : effect c.cwd c.arguments s = (.ok (), t)) (hf : Run.Ends (f ()) t result more after) :
    Run.Ends (Run.callChecked (executor none order) c >>= f) s result (c :: more) after := by
  have hwork : Work.ofFiles (effect c.cwd c.arguments) s = (.ok (), t) := ofFiles_eq_ok.2 h
  refine Run.Ends.callChecked_bind (fun tools => ?_) hf
  simp [executor, hwork]

end Imitation

end StubRelease
