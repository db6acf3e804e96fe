/-
# StubRelease.Proofs.Promotion -- what a promotion that succeeds has done

In any tree, links or not. An entry is moved up to where nothing stands, or in the place of a link that leads
nowhere; so while one entry after the other is moved, the paths of the two directories go on leading where they
led, and a generated tree without links ends up one level higher as it was (`promoteGenerated_raises`). The
metadata that is copied afterwards is written in the same directory (`copyEach_writes`).
-/
import StubRelease.Proofs.Contents
import StubRelease.Proofs.Staging
import StubRelease.Proofs.Tree.Accord
import StubRelease.Proofs.Tree.Writing

namespace StubRelease

open Sequence Node

/-- The name of the generator's output. -/
def Layout.generatedEntry : Name := Bytes.ofString generatedName

open Layout (generatedEntry)

/-- What is below one entry is not below another. -/
theorem below_ne {d : List Name} {a b : Name} (h : a ≠ b) (p q : List Name) : d ++ a :: p ≠ d ++ b :: q := by
  intro heq
  exact h (List.cons.inj (List.append_cancel_left heq)).1

theorem below_below_ne {d : List Name} {a b c : Name} (h : a ≠ b) (p q : List Name) :
    d ++ c :: a :: p ≠ d ++ c :: b :: q := by
  have := below_ne (d := d ++ [c]) h p q
  rwa [List.append_assoc, List.append_assoc] at this

/-! ## One entry -/

namespace Node

/-- What is seen after an entry of the directory `out` in `d` was moved up into `d`. -/
theorem look_raise {n node : Node} {d : List Name} {out name : Name} (hne : name ≠ out)
    (hd : n.look d = some .dir) (hnode : n.get? (d ++ [out] ++ [name]) = some node) :
    (∀ rest, ((n.drop (d ++ [out]) name).put d name node).look (d ++ name :: rest) =
        n.look (d ++ out :: name :: rest)) ∧
      (∀ rest, ((n.drop (d ++ [out]) name).put d name node).look (d ++ out :: name :: rest) = none) ∧
      ∀ p, (∀ rest, p ≠ d ++ name :: rest ∧ p ≠ d ++ out :: name :: rest) →
        ((n.drop (d ++ [out]) name).put d name node).look p = n.look p := by
  have hdown : ¬ d ++ [out] ++ [name] <+: d := by
    intro h
    exact not_entry_isPrefix d out ((List.prefix_append _ _).trans h)
  have hup : ¬ d ++ [name] <+: d ++ [out] := by rwa [entry_isPrefix_iff]
  obtain ⟨hthere, hgone, helsewhere⟩ := look_move node hd hdown hup (by simp)
  refine ⟨fun rest => ?_, fun rest => ?_, fun p hp => helsewhere p ?_ ?_⟩
  · have hdest : d ++ name :: rest = d ++ [name] ++ rest := by simp
    have hsource : d ++ out :: name :: rest = d ++ [out] ++ [name] ++ rest := by simp
    rw [hdest, hsource, look_append, look_append, hthere, hnode]
  · have hsource : d ++ out :: name :: rest = d ++ [out] ++ name :: rest := by simp
    rw [hsource]
    exact hgone rest
  · rintro ⟨rest, rfl⟩
    exact (hp rest).2 (by simp)
  · rintro ⟨rest, rfl⟩
    exact (hp rest).1 (by simp)

end Node

/-- A path of an entry that leads to a directory has a directory above the entry. -/
theorem Store.Reaches.init {s : Store} {p : Path} {text : String} {d : List Name}
    (hname : IsName (Bytes.ofString text)) (h : s.Reaches (p / text) d) : ∃ e, s.Reaches p e := by
  have hwalk := h.walk
  rw [Route.ofBytes_div hname] at hwalk
  obtain ⟨e, hfront, hdir⟩ := Store.walk_init _ hwalk
  exact ⟨e, hfront, hdir⟩

/-! ## Files and nothing else -/

/-- Between `s` and `t` files were written at some of the places in `P`, where no directories stood, and nothing
else was done. -/
structure Store.WritesFiles (s : Store) (P : List Name → Prop) (t : Store) : Prop where
  cwd : t.cwd = s.cwd
  look : ∀ p, t.top.look p = s.top.look p ∨
    P p ∧ s.top.look p ≠ some .dir ∧ ∃ content executable, t.top.look p = some (.file content executable)

namespace Store.WritesFiles

variable {P Q : List Name → Prop} {s t u : Store}

theorem refl (P : List Name → Prop) (s : Store) : s.WritesFiles P s := ⟨rfl, fun _ => .inl rfl⟩

theorem trans (h : s.WritesFiles P t) (h' : t.WritesFiles P u) : s.WritesFiles P u := by
  refine ⟨h'.cwd.trans h.cwd, fun p => ?_⟩
  obtain heq | ⟨hp, hnot, hfile⟩ := h'.look p
  · rw [heq]
    exact h.look p
  · refine .inr ⟨hp, ?_, hfile⟩
    obtain heq | ⟨-, hold, -⟩ := h.look p
    · rwa [← heq]
    · exact hold

theorem mono (hPQ : ∀ p, P p → Q p) (h : s.WritesFiles P t) : s.WritesFiles Q t :=
  ⟨h.cwd, fun p => (h.look p).imp_right fun ⟨hp, hfile⟩ => ⟨hPQ p hp, hfile⟩⟩

theorem elsewhere (h : s.WritesFiles P t) {p : List Name} (hp : ¬ P p) : t.top.look p = s.top.look p :=
  (h.look p).resolve_right fun hfile => hp hfile.1

theorem accords {n : Node} (h : s.WritesFiles P t) (haccords : n.Accords s.top) : n.Accords t.top :=
  haccords.edit fun p => (h.look p).imp_right fun hfile => .inr hfile.2.2

/-- Where no link was there is none. -/
theorem not_link (h : s.WritesFiles P t) {p : List Name}
    (hp : ∀ target, s.top.look p ≠ some (.link target)) (target : Bytes) :
    t.top.look p ≠ some (.link target) := by
  obtain heq | ⟨-, -, _, _, hfile⟩ := h.look p
  · rw [heq]
    exact hp target
  · simp [hfile]

/-- Directories stay, and so do links if none is written over. -/
theorem keepsWays (h : s.WritesFiles P t) (hlinks : ∀ p, P p → ∀ target, s.top.look p ≠ some (.link target)) :
    s.top.KeepsWays t.top := by
  refine ⟨fun p hdir => ?_, fun p target hlink => ?_⟩
  · obtain heq | ⟨-, hnot, -⟩ := h.look p
    · rw [heq, hdir]
    · exact absurd hdir hnot
  · obtain heq | ⟨hp, -⟩ := h.look p
    · rw [heq, hlink]
    · exact absurd hlink (hlinks p hp target)

theorem put {dir : List Name} {name : Name} (hdir : s.top.look dir = some .dir)
    (hold : s.top.look (dir ++ [name]) ≠ some .dir) (content : Content) (executable : Bool) :
    s.WritesFiles (· = dir ++ [name]) (s.put dir name (.file content executable)) := by
  refine ⟨rfl, fun p => ?_⟩
  by_cases hp : p = dir ++ [name]
  · subst hp
    refine .inr ⟨rfl, hold, content, executable, ?_⟩
    rw [top_put, look_eq_file, get?_put_self hdir]
  · exact .inl (look_put_file hdir hold content executable hp)

end Store.WritesFiles

namespace Files

/-- A file is written at the entry that its path spells, unless that is a link, or it is not written at all. -/
theorem writeFile_writes {s : Store} {p : Path} {text : String} {d : List Name}
    (hname : IsName (Bytes.ofString text)) (hd : s.Reaches p d)
    (hlink : ∀ target, s.top.look (d ++ [Bytes.ofString text]) ≠ some (.link target)) (content : Content) :
    s.WritesFiles (· = d ++ [Bytes.ofString text]) (writeFile (p / text).bytes content s).2 := by
  rw [writeFile, run_bind]
  cases hopen : emptyFile (p / text).bytes s with
  | mk result opened =>
    cases result with
    | error fault =>
      obtain rfl := emptyFile_of_error hopen
      exact .refl _ _
    | ok place =>
      obtain ⟨e, hfinds, -, hentry⟩ := emptyFile_entry hname hopen
      obtain rfl := hfinds.reaches.unique hd
      obtain ⟨rfl, hnot, rfl⟩ := hentry hlink
      simp only [run_modify, Store.fill_put hd.dir]
      exact .put hd.dir hnot content _

end Files

/-- A copy that succeeds is written at the entry that its path spells, unless that is a link. -/
theorem Files.copyFile_eq_ok {s t : Store} {source : Bytes} {p : Path} {text : String}
    (hname : IsName (Bytes.ofString text)) (h : copyFile source (p / text).bytes s = (.ok (), t)) :
    ∃ d, s.Finds p text d ∧ ((∀ target, s.top.look (d ++ [Bytes.ofString text]) ≠ some (.link target)) →
      s.top.look (d ++ [Bytes.ofString text]) ≠ some .dir ∧
        ∃ content executable, t = s.put d (Bytes.ofString text) (.file content executable)) := by
  rw [copyFile, run_bind, ask_eq] at h
  cases horigin : s.placeOf true source with
  | error fault =>
    rw [horigin] at h
    cases (outcome_inj.1 h).1
  | ok origin =>
    simp only [horigin, run_bind, run_get] at h
    cases hnode : s.top.get? origin with
    | none =>
      rw [hnode] at h
      cases (outcome_inj.1 h).1
    | some node =>
      cases node with
      | link _ =>
        rw [hnode] at h
        cases (outcome_inj.1 h).1
      | dir _ =>
        rw [hnode] at h
        cases (outcome_inj.1 h).1
      | file _ executable =>
        rw [hnode] at h
        obtain ⟨place, opened, hopen, hfill⟩ := bind_eq_ok.1 h
        obtain ⟨d, hfinds, -, hentry⟩ := emptyFile_entry hname hopen
        refine ⟨d, hfinds, fun hlink => ?_⟩
        obtain ⟨rfl, hnot, rfl⟩ := hentry hlink
        simp only [run_bind, run_get, run_modify, Store.replace_concat, Store.put_put] at hfill
        obtain ⟨-, rfl⟩ := outcome_inj.1 hfill
        exact ⟨hnot, _, _, rfl⟩

namespace Staging

variable {s t u : Store} {p q w : Path} {text other : String} {d : List Name}

/-- What a move that succeeds has done, if it is no link that was moved: it has found nothing at the
destination, or a link that leads nowhere. -/
theorem movePath_eq_ok (hother : IsName (Bytes.ofString other)) (hname : IsName (Bytes.ofString text))
    (hlink : ∀ e, s.Reaches q e → ∀ target, s.top.look (e ++ [Bytes.ofString other]) ≠ some (.link target))
    (h : movePath (q / other) (p / text) s = (.ok (), t)) :
    ∃ e d node, Files.Carries s q other e p text d node ∧
      (s.top.look (d ++ [Bytes.ofString text]) = none ∨
        (∃ target, s.top.look (d ++ [Bytes.ofString text]) = some (.link target)) ∧ node.isDir = false) ∧
      t = (s.drop e (Bytes.ofString other)).put d (Bytes.ofString text) node := by
  obtain ⟨_, s₁, hrequire, hmoved⟩ := bind_eq_ok.1 h
  obtain ⟨habsent, rfl⟩ := require_eq_ok.1 hrequire
  rw [ofFiles_eq_ok] at hmoved
  have hold {d : List Name} (hfinds : s.Finds p text d)
      (hshort : (Bytes.ofString text).length ≤ Route.nameLimit) {seen : Sight}
      (hseen : s.top.look (d ++ [Bytes.ofString text]) = some seen) : ∃ target, seen = .link target := by
    refine Classical.byContradiction fun hnot => ?_
    have hpresent := Store.present_of_look hname hfinds hshort hseen fun target heq => hnot ⟨target, heq⟩
    simp [hpresent] at habsent
  obtain ⟨fault, hfault⟩ | ⟨d, hfinds, hshort, hstands, ⟨e, hsource, heq⟩, -⟩ | ⟨e, d, node, hcarries⟩ :=
    Files.rename_finds (s := s) (q := q) (p := p) hother hname
  · rw [hfault] at hmoved
    cases (outcome_inj.1 hmoved).1
  · obtain ⟨seen, hseen⟩ := Option.ne_none_iff_exists'.1 hstands
    obtain ⟨target, rfl⟩ := hold hfinds hshort hseen
    exact absurd (heq ▸ hseen) (hlink e hsource.reaches target)
  · rw [Files.rename_of_carries hother hname hcarries] at hmoved
    refine ⟨e, d, node, hcarries, ?_, (outcome_inj.1 hmoved).2.symm⟩
    cases hseen : s.top.look (d ++ [Bytes.ofString text]) with
    | none => exact .inl rfl
    | some seen =>
      obtain ⟨target, rfl⟩ := hold hcarries.dest hcarries.destShort hseen
      exact .inr ⟨⟨target, rfl⟩, Files.not_isDir_of_mayReplace_link hseen hcarries.mayReplace⟩

/-! ## One entry after the other -/

/-- Between `s` and `t` the generated entries of these names have been moved up into the directory at `d`. -/
structure Promoted (d : List Name) (names : List Name) (s t : Store) : Prop where
  cwd : t.cwd = s.cwd
  moved : ∀ x ∈ names, ∀ rest, t.top.look (d ++ x :: rest) = s.top.look (d ++ generatedEntry :: x :: rest)
  gone : ∀ x ∈ names, ∀ rest, t.top.look (d ++ generatedEntry :: x :: rest) = none
  elsewhere : ∀ p, (∀ x ∈ names, ∀ rest, p ≠ d ++ x :: rest ∧ p ≠ d ++ generatedEntry :: x :: rest) →
    t.top.look p = s.top.look p
  gaveWay : ∀ x ∈ names, s.top.look (d ++ [x]) = none ∨
    (∃ target, s.top.look (d ++ [x]) = some (.link target)) ∧
      s.top.look (d ++ [generatedEntry, x]) ≠ some .dir

namespace Promoted

variable {names : List Name}

theorem nil (d : List Name) (s : Store) : Promoted d [] s s :=
  ⟨rfl, by simp, by simp, fun _ _ => rfl, by simp⟩

/-- Nothing stood below the places that the entries were moved to. -/
theorem not_dir (h : Promoted d names s t) {x : Name} (hx : x ∈ names) : s.top.look (d ++ [x]) ≠ some .dir := by
  obtain hnone | ⟨⟨_, hlink⟩, -⟩ := h.gaveWay x hx <;> simp [*]

/-- The directory of the generated entries is not moved itself. -/
theorem generated_notMem (h : Promoted d names s t) (hout : s.top.look (d ++ [generatedEntry]) = some .dir) :
    generatedEntry ∉ names := fun hmem => h.not_dir hmem hout

/-- An entry that has not been moved stands where it stood, and so does what stands where it is to be moved. -/
theorem unmoved (h : Promoted d names s t) (hout : s.top.look (d ++ [generatedEntry]) = some .dir) {name : Name}
    (hname : name ∉ names) :
    t.top.look (d ++ [name]) = s.top.look (d ++ [name]) ∧ ∀ rest,
      t.top.look (d ++ generatedEntry :: name :: rest) = s.top.look (d ++ generatedEntry :: name :: rest) := by
  have hgenerated := h.generated_notMem hout
  have hne {x : Name} (hx : x ∈ names) : name ≠ x := fun heq => hname (heq ▸ hx)
  have hout' {x : Name} (hx : x ∈ names) : generatedEntry ≠ x := fun heq => hgenerated (heq ▸ hx)
  refine ⟨h.elsewhere _ fun x hx rest => ⟨below_ne (hne hx) _ _, ?_⟩,
    fun rest => h.elsewhere _ fun x hx more => ⟨below_ne (hout' hx) _ _, below_below_ne (hne hx) _ _⟩⟩
  intro heq
  simpa using List.append_cancel_left heq

/-- No path to a directory has come to lead elsewhere: only links that lead nowhere have been replaced, and
only by files. -/
theorem accords (h : Promoted d names s t)
    (hfree : ∀ rest target, s.top.look (d ++ generatedEntry :: rest) ≠ some (.link target)) :
    s.top.Accords t.top := by
  refine .of_look (.refl t.top) fun p => ?_
  by_cases hat : ∃ x ∈ names, ∃ rest, p = d ++ x :: rest
  · obtain ⟨x, hx, rest, rfl⟩ := hat
    cases rest with
    | cons first rest =>
      have hnone := look_below_of_not_dir (h.not_dir hx) first rest
      rw [List.append_assoc, List.singleton_append] at hnone
      exact .inr (.inl (.inl hnone))
    | nil =>
      obtain hnone | ⟨-, hnot⟩ := h.gaveWay x hx
      · exact .inr (.inl (.inl hnone))
      · have hmoved := h.moved x hx []
        exact .inr (.inr (hmoved ▸ leadsNowhere_of_not hnot (hfree [x])))
  · by_cases hfrom : ∃ x ∈ names, ∃ rest, p = d ++ generatedEntry :: x :: rest
    · obtain ⟨x, hx, rest, rfl⟩ := hfrom
      exact .inr (.inr (.inl (h.gone x hx rest)))
    · exact .inl (h.elsewhere p fun x hx rest =>
        ⟨fun heq => hat ⟨x, hx, rest, heq⟩, fun heq => hfrom ⟨x, hx, rest, heq⟩⟩).symm

/-- One more entry has been moved up. -/
theorem snoc {name : Name} {node : Node} (h : Promoted d names s t)
    (hout : s.top.look (d ++ [generatedEntry]) = some .dir) (hnew : name ∉ names) (hne : name ≠ generatedEntry)
    (hd : t.top.look d = some .dir) (hnode : t.top.get? (d ++ [generatedEntry] ++ [name]) = some node)
    (hdest : t.top.look (d ++ [name]) = none ∨
      (∃ target, t.top.look (d ++ [name]) = some (.link target)) ∧ node.isDir = false) :
    Promoted d (names ++ [name]) s ((t.drop (d ++ [generatedEntry]) name).put d name node) := by
  obtain ⟨hmoved, hgone, helsewhere⟩ := look_raise hne hd hnode
  obtain ⟨hfree, hsame⟩ := h.unmoved hout hnew
  have hgenerated := h.generated_notMem hout
  have hother {x : Name} (hx : x ∈ names) : x ≠ name := fun heq => hnew (heq ▸ hx)
  have hout' {x : Name} (hx : x ∈ names) : x ≠ generatedEntry := fun heq => hgenerated (heq ▸ hx)
  refine ⟨h.cwd, fun x hx rest => ?_, fun x hx rest => ?_, fun p hp => ?_, fun x hx => ?_⟩
  · rcases List.mem_append.1 hx with hx | hx
    · rw [Store.top_put, Store.top_drop,
        helsewhere _ fun more => ⟨below_ne (hother hx) _ _, below_ne (hout' hx) _ _⟩, h.moved x hx]
    · obtain rfl := List.mem_singleton.1 hx
      rw [Store.top_put, Store.top_drop, hmoved, hsame]
  · rcases List.mem_append.1 hx with hx | hx
    · rw [Store.top_put, Store.top_drop, helsewhere, h.gone x hx]
      exact fun more => ⟨below_ne hne.symm _ _, below_below_ne (hother hx) _ _⟩
    · obtain rfl := List.mem_singleton.1 hx
      exact hgone rest
  · rw [Store.top_put, Store.top_drop, helsewhere p fun rest => hp name (by simp) rest]
    exact h.elsewhere p fun x hx rest => hp x (List.mem_append_left _ hx) rest
  · rcases List.mem_append.1 hx with hx | hx
    · exact h.gaveWay x hx
    · obtain rfl := List.mem_singleton.1 hx
      rw [← hfree, ← hsame []]
      refine hdest.imp_right fun ⟨hlink, hnot⟩ => ⟨hlink, ?_⟩
      have hseen : t.top.look (d ++ [generatedEntry, x]) = some node.sight := by
        rw [List.append_cons]
        exact look_of_get? hnode
      rw [hseen]
      cases node <;> simp_all [sight, isDir]

end Promoted

/-- A generated tree without links, in the directory that a path leads to. -/
structure Generated (s : Store) (w : Path) (d : List Name) : Prop where
  work : s.Reaches w d
  out : s.Reaches (generatedDir w) (d ++ [generatedEntry])
  linkFree : ∀ rest target, s.top.look (d ++ generatedEntry :: rest) ≠ some (.link target)

/-- One more entry has been moved up. -/
theorem Promoted.step {names : List Name} (hs : Generated s w d) (h : Promoted d names s t) {name : Name}
    (hname : IsName name) (hnew : name ∉ names) (hrun : promoteEntry w name t = (.ok (), u)) :
    Promoted d (names ++ [name]) s u := by
  have haccords := h.accords hs.linkFree
  obtain ⟨hfree, hsame⟩ := h.unmoved hs.out.dir hnew
  rw [promoteEntry] at hrun
  cases htext : Bytes.toString? name with
  | none =>
    rw [htext] at hrun
    cases (outcome_inj.1 hrun).1
  | some text =>
    obtain rfl := Bytes.ofString_of_toString? htext
    simp only [htext] at hrun
    have hlink (e : List Name) (he : t.Reaches (generatedDir w) e) (target : Bytes) :
        t.top.look (e ++ [Bytes.ofString text]) ≠ some (.link target) := by
      obtain rfl := hs.out.accords he haccords h.cwd
      rw [List.append_assoc, List.singleton_append, hsame]
      exact hs.linkFree _ target
    obtain ⟨e, d', node, hcarries, hdest, rfl⟩ := movePath_eq_ok hname hname hlink hrun
    obtain rfl := hs.out.accords hcarries.source.reaches haccords h.cwd
    obtain rfl := hs.work.accords hcarries.dest.reaches haccords h.cwd
    have hne : Bytes.ofString text ≠ generatedEntry := by
      intro heq
      have hout := hcarries.source.reaches.dir
      rw [← heq] at hout
      obtain hnone | ⟨⟨_, hold⟩, -⟩ := hdest <;> simp_all
    exact h.snoc hs.out.dir hnew hne hcarries.dest.reaches.dir hcarries.found hdest

/-- The entries of a list have been moved up. -/
theorem promoteEach_promoted (hs : Generated s w d) {done listing : List Name} (h : Promoted d done s t)
    (hnames : ∀ name ∈ listing, IsName name) (hnodup : (done ++ listing).Nodup)
    (hrun : promoteListed.each w listing t = (.ok (), u)) : Promoted d (done ++ listing) s u := by
  induction listing generalizing done t with
  | nil =>
    obtain ⟨-, rfl⟩ := outcome_inj.1 hrun
    rwa [List.append_nil]
  | cons name rest ih =>
    obtain ⟨_, v, hfirst, hrest⟩ := bind_eq_ok.1 hrun
    have hnew : name ∉ done := fun hmem => (List.nodup_append.1 hnodup).2.2 name hmem name List.mem_cons_self rfl
    have hstep := h.step hs (hnames name List.mem_cons_self) hnew hfirst
    rw [List.append_cons] at hnodup ⊢
    exact ih hstep (fun other hother => hnames other (List.mem_cons_of_mem _ hother)) hnodup hrest

/-! ## All entries -/

/-- Between `s` and `t` a generated tree has been moved up into the directory at `d`, which no longer holds the
directory it was generated in. -/
structure Raised (d : List Name) (tree : Node) (s t : Store) : Prop where
  cwd : t.cwd = s.cwd
  free : ∀ x, tree.look [x] ≠ none → s.top.look (d ++ [x]) = none ∨
    ∃ target, s.top.look (d ++ [x]) = some (.link target)
  moved : ∀ x rest, tree.look [x] ≠ none → t.top.look (d ++ x :: rest) = tree.look (x :: rest)
  cleared : ∀ rest, t.top.look (d ++ generatedEntry :: rest) = none
  elsewhere : ∀ p, (∀ rest, p ≠ d ++ generatedEntry :: rest) →
    (∀ x rest, tree.look [x] ≠ none → p ≠ d ++ x :: rest) → t.top.look p = s.top.look p
  accords : s.top.Accords t.top

theorem mem_names_iff {entries : Listing Node} (h : entries.Sorted) {name : Name} :
    name ∈ Listing.names entries ↔ (Node.dir entries).look [name] ≠ none := by
  rw [look_dir_cons]
  constructor
  · intro hmem
    obtain ⟨⟨_, child⟩, hchild, rfl⟩ := List.mem_map.1 hmem
    simp [Listing.find?_of_mem h hchild]
  · intro hseen
    cases hchild : Listing.find? name entries with
    | none => simp [hchild] at hseen
    | some child => exact List.mem_map.2 ⟨_, Listing.mem_of_find? hchild, rfl⟩

/-- The order in which entries were moved up leaves no trace. -/
theorem Promoted.perm {done names : List Name} (h : Promoted d done s t) (hnames : done.Perm names) :
    Promoted d names s t where
  cwd := h.cwd
  moved x hx := h.moved x (hnames.mem_iff.2 hx)
  gone x hx := h.gone x (hnames.mem_iff.2 hx)
  elsewhere p hp := h.elsewhere p fun x hx => hp x (hnames.mem_iff.1 hx)
  gaveWay x hx := h.gaveWay x (hnames.mem_iff.2 hx)

/-- All entries have been moved up, and the directory they were in has been removed. -/
theorem Raised.of_promoted {entries : Listing Node} (hout : s.top.look (d ++ [generatedEntry]) = some .dir)
    (htree : s.top.get? (d ++ [generatedEntry]) = some (.dir entries)) (hsorted : entries.Sorted)
    (h : Promoted d (Listing.names entries) s t) (hkept : s.top.Accords t.top) :
    Raised d (.dir entries) s (t.drop d generatedEntry) := by
  have hdropped (p : List Name) (hp : ∀ rest, p ≠ d ++ generatedEntry :: rest) :
      (t.top.drop d generatedEntry).look p = t.top.look p := by
    refine look_drop_elsewhere t.top ?_
    rintro ⟨rest, rfl⟩
    exact hp rest (by simp)
  refine ⟨h.cwd, fun x hx => ?_, fun x rest hx => ?_, fun rest => look_drop t.top d generatedEntry rest,
    fun p hp hother => ?_, ?_⟩
  · exact (h.gaveWay x ((mem_names_iff hsorted).2 hx)).imp_right And.left
  · have hmem := (mem_names_iff hsorted).2 hx
    have hne : x ≠ generatedEntry := fun heq => h.generated_notMem hout (heq ▸ hmem)
    rw [Store.top_drop, hdropped _ (below_ne hne rest), h.moved x hmem, List.append_cons, look_append, htree,
      Option.bind_some]
  · rw [Store.top_drop, hdropped p hp]
    exact h.elsewhere p fun x hx rest => ⟨hother x rest ((mem_names_iff hsorted).1 hx), hp _⟩
  · refine hkept.edit fun p => ?_
    by_cases hp : ∃ rest, p = d ++ generatedEntry :: rest
    · obtain ⟨rest, rfl⟩ := hp
      exact .inr (.inl (look_drop t.top d generatedEntry rest))
    · exact .inl (hdropped p fun rest heq => hp ⟨rest, heq⟩)

/-- Where the paths of a working directory and of the generator's output lead, if files came and went since
they were known to lead there. -/
theorem Generated.of_accords {base : Store} {entries : Listing Node} (hbase : base.Reaches w d)
    (haccords : base.top.Accords s.top) (hcwd : s.cwd = base.cwd)
    (htree : s.top.get? (d ++ [generatedEntry]) = some (.dir entries)) (hplain : (Node.dir entries).Plain)
    (h : s.isDir (generatedDir w).bytes = true) : Generated s w d := by
  obtain ⟨-, -, goal, hgoal⟩ := Store.reaches_of_isDir Layout.isName_generated h
  obtain ⟨e, he⟩ := hgoal.init Layout.isName_generated
  obtain rfl := hbase.accords he haccords hcwd
  refine ⟨he, Store.reaches_div Layout.isName_generated he (by decide) (look_of_get? htree), fun rest target => ?_⟩
  rw [List.append_cons, look_append, htree]
  exact hplain.linkFree rest target

/-- A promotion that succeeds has moved the whole generated tree up, as it was. -/
theorem promoteGenerated_raises {order : Listing.Order} {base : Store} {entries : Listing Node} {n : Nat}
    (hbase : base.Reaches w d) (haccords : base.top.Accords s.top) (hcwd : s.cwd = base.cwd)
    (htree : s.top.get? (d ++ [generatedEntry]) = some (.dir entries)) (hplain : (Node.dir entries).Plain)
    (h : promoteGenerated order w s = (.ok n, t)) : s.Reaches w d ∧ Raised d (.dir entries) s t := by
  obtain ⟨_, s₁, hrequire, -⟩ := bind_eq_ok.1 h
  obtain ⟨hdir, rfl⟩ := require_eq_ok.1 hrequire
  have hs := Generated.of_accords hbase haccords hcwd htree hplain hdir
  obtain ⟨hnul, hfits, -⟩ := Store.reaches_of_isDir Layout.isName_generated hdir
  have hnode : s.nodeAt true (generatedDir w).bytes = .ok (.dir entries) := by
    rw [generatedDir, Store.nodeAt_div Layout.isName_generated ⟨hs.work, hnul, hfits⟩ (by decide)
      fun _ => hs.linkFree [], ← generatedEntry, htree]
  rw [promoteGenerated_of_nodeAt hnode] at h
  obtain ⟨_, u, heach, hmoved⟩ := bind_eq_ok.1 h
  obtain ⟨_, v, hremoved, hmoved⟩ := bind_eq_ok.1 hmoved
  obtain ⟨-, rfl⟩ := outcome_inj.1 hmoved
  obtain ⟨hsorted, hisName⟩ := hplain.listing
  have hperm := order.perm (generatedDir w).bytes (Listing.names entries)
  have hlisted := promoteEach_promoted hs (.nil d s) (fun name hname => hisName name (hperm.mem_iff.1 hname))
    (hperm.nodup_iff.2 hsorted.nodup_names) heach
  rw [List.nil_append] at hlisted
  have hpromoted := hlisted.perm hperm
  have hkept := hpromoted.accords hs.linkFree
  rw [ofFiles_eq_ok, generatedDir] at hremoved
  obtain ⟨fault, hfault⟩ | ⟨e, hfinds, hshort, hempty⟩ :=
    Files.removeDir_finds (s := u) (p := w) Layout.isName_generated
  · rw [hfault] at hremoved
    cases (outcome_inj.1 hremoved).1
  · obtain rfl := hs.work.accords hfinds.reaches hkept hpromoted.cwd
    rw [Files.removeDir_of_finds Layout.isName_generated hfinds hshort hempty] at hremoved
    obtain ⟨-, rfl⟩ := outcome_inj.1 hremoved
    exact ⟨hs.work, .of_promoted hs.out.dir htree hsorted hpromoted hkept⟩

/-! ## Copying the metadata -/

/-- A metadata file that is copied is written in the directory that the working directory's path leads to. -/
theorem copyMetadataFile_writes {base : Store} {scriptDir : Path} (hbase : base.Reaches w d)
    (haccords : base.top.Accords s.top) (hcwd : s.cwd = base.cwd) (hname : IsName (Bytes.ofString text))
    (hlink : ∀ target, s.top.look (d ++ [Bytes.ofString text]) ≠ some (.link target))
    (h : copyMetadataFile w scriptDir text s = (.ok (), t)) :
    s.Reaches w d ∧ s.WritesFiles (· = d ++ [Bytes.ofString text]) t := by
  obtain ⟨_, s₁, hrequire, hcopied⟩ := bind_eq_ok.1 h
  obtain ⟨-, rfl⟩ := require_eq_ok.1 hrequire
  rw [ofFiles_eq_ok] at hcopied
  obtain ⟨e, hfinds, hcopy⟩ := Files.copyFile_eq_ok hname hcopied
  obtain rfl := hbase.accords hfinds.reaches haccords hcwd
  obtain ⟨hnot, content, executable, rfl⟩ := hcopy hlink
  exact ⟨hfinds.reaches, .put hfinds.reaches.dir hnot content executable⟩

theorem copyEach_writes {base : Store} {c : Config} {names : List String} (hbase : base.Reaches w d)
    (haccords : base.top.Accords s.top) (hcwd : s.cwd = base.cwd)
    (hnames : ∀ name ∈ names, IsName (Bytes.ofString name))
    (hlinks : ∀ name ∈ names, ∀ target, s.top.look (d ++ [Bytes.ofString name]) ≠ some (.link target))
    (h : copyMetadata.each w c names s = (.ok (), t)) :
    (names ≠ [] → s.Reaches w d) ∧ s.WritesFiles (fun p => ∃ name ∈ names, p = d ++ [Bytes.ofString name]) t := by
  induction names generalizing s with
  | nil =>
    obtain ⟨-, rfl⟩ := outcome_inj.1 h
    exact ⟨fun hne => absurd rfl hne, .refl _ s⟩
  | cons name rest ih =>
    obtain ⟨_, u, hfirst, hrest⟩ := bind_eq_ok.1 h
    obtain ⟨hreaches, hwrites⟩ := copyMetadataFile_writes hbase haccords hcwd (hnames name List.mem_cons_self)
      (hlinks name List.mem_cons_self) hfirst
    obtain ⟨-, hlater⟩ := ih (hwrites.accords haccords) (hwrites.cwd.trans hcwd)
      (fun other hother => hnames other (List.mem_cons_of_mem _ hother))
      (fun other hother => hwrites.not_link (hlinks other (List.mem_cons_of_mem _ hother))) hrest
    exact ⟨fun _ => hreaches, (hwrites.mono fun p hp => ⟨name, List.mem_cons_self, hp⟩).trans
      (hlater.mono fun p ⟨other, hother, hp⟩ => ⟨other, List.mem_cons_of_mem _ hother, hp⟩)⟩

end Staging

end StubRelease
