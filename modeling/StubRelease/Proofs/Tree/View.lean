/-
# StubRelease.Proofs.Tree.View -- what stands at each place

A tree is seen place by place. `look` shows a file with what it holds, a link with its target, and of a
directory only that it is one, so an edit of a directory's entries is seen below the directory and nowhere
else. Main statements: putting or dropping an entry is seen at that entry and below only
(`look_put_elsewhere`, `look_drop_elsewhere`), and a tree that has neither links nor names that
are no steps of a path keeps both properties under such edits.
-/
import StubRelease.Proofs.Tree.Spelling
import StubRelease.Tree.Store

namespace StubRelease

/-- What is seen of a node at its own place. -/
inductive Sight where
  | file (content : Content) (executable : Bool)
  | link (target : Bytes)
  | dir

/-- No entry of a directory is above the directory. -/
theorem not_entry_isPrefix (place : List Name) (name : Name) : ¬ place ++ [name] <+: place := by
  intro h
  have := h.length_le
  rw [List.length_append, List.length_singleton] at this
  omega

theorem entry_isPrefix_iff {place rest : List Name} {a b : Name} :
    place ++ [a] <+: place ++ b :: rest ↔ a = b := by
  rw [List.prefix_append_right_inj, List.cons_prefix_cons]
  simp

/-- A place is below one entry of a directory at most. -/
theorem entry_isPrefix_inj {place p : List Name} {a b : Name} (ha : place ++ [a] <+: p)
    (hb : place ++ [b] <+: p) : a = b := by
  obtain ⟨rest, rfl⟩ := hb
  rw [List.append_assoc, List.singleton_append] at ha
  exact entry_isPrefix_iff.1 ha

namespace Listing

variable {α : Type}

theorem mem_of_find? {name : Name} {a : α} {l : Listing α} (h : find? name l = some a) :
    (name, a) ∈ l := by
  induction l with
  | nil => simp at h
  | cons entry rest ih =>
    obtain ⟨n, b⟩ := entry
    by_cases hn : n = name
    · subst hn
      simp_all [find?]
    · exact List.mem_cons_of_mem _ (ih (by simpa [find?, hn] using h))

theorem find?_of_mem {name : Name} {a : α} {l : Listing α} (hl : l.Sorted) (h : (name, a) ∈ l) :
    find? name l = some a := by
  induction l with
  | nil => simp at h
  | cons entry rest ih =>
    obtain ⟨n, b⟩ := entry
    obtain ⟨hfirst, hrest⟩ := List.pairwise_cons.1 hl
    rcases List.mem_cons.1 h with heq | hmem
    · cases heq
      simp [find?]
    · have hlt : n < name := hfirst name (List.mem_map.2 ⟨_, hmem, rfl⟩)
      have hne : n ≠ name := by
        rintro rfl
        exact List.lt_irrefl n hlt
      rw [find?, if_neg hne]
      exact ih hrest hmem

/-- A sorted listing has each name once. -/
theorem Sorted.nodup_names {l : Listing α} (h : l.Sorted) : (names l).Nodup := by
  refine List.Pairwise.imp ?_ h
  rintro a _ hlt rfl
  exact List.lt_irrefl a hlt

theorem mem_put {name : Name} {a : α} {l : Listing α} {entry : Name × α}
    (h : entry ∈ put name a l) : entry = (name, a) ∨ entry ∈ l := by
  induction l with
  | nil => exact .inl (by simpa [put] using h)
  | cons first rest ih =>
    obtain ⟨n, b⟩ := first
    by_cases hn : n = name
    · subst hn
      rw [put, if_pos rfl] at h
      exact (List.mem_cons.1 h).imp_right (List.mem_cons_of_mem _)
    · by_cases hlt : name < n
      · rw [put, if_neg hn, if_pos hlt] at h
        exact List.mem_cons.1 h
      · rw [put, if_neg hn, if_neg hlt] at h
        rcases List.mem_cons.1 h with h | h
        · exact .inr (h ▸ List.mem_cons_self)
        · exact (ih h).imp_right (List.mem_cons_of_mem _)

theorem sublist_drop (name : Name) (l : Listing α) : (drop name l).Sublist l := by
  induction l with
  | nil => exact List.Sublist.slnil
  | cons first rest ih =>
    obtain ⟨n, b⟩ := first
    rw [drop]
    split
    · exact ih.cons _
    · exact ih.cons_cons _

theorem Sorted.drop {l : Listing α} (h : l.Sorted) (name : Name) : (drop name l).Sorted :=
  List.Pairwise.sublist ((sublist_drop name l).map _) h

/-- Of two nodes put under one name the second stays. -/
@[simp] theorem put_put (name : Name) (a b : α) (l : Listing α) :
    put name b (put name a l) = put name b l := by
  induction l with
  | nil => simp [put]
  | cons first rest ih =>
    obtain ⟨n, c⟩ := first
    by_cases hn : n = name
    · simp [put, hn]
    · by_cases hlt : name < n
      · simp [put, hn, hlt]
      · simp [put, hn, hlt, ih]

/-- What was put under a name is gone when the name is dropped. -/
@[simp] theorem drop_put (name : Name) (a : α) (l : Listing α) :
    drop name (put name a l) = drop name l := by
  induction l with
  | nil => simp [put, drop]
  | cons first rest ih =>
    obtain ⟨n, c⟩ := first
    by_cases hn : n = name
    · simp [put, drop, hn]
    · by_cases hlt : name < n
      · simp [put, drop, hn, hlt]
      · simp [put, drop, hn, hlt, ih]

end Listing

namespace Node

/-- What is seen of a node without its entries. -/
def sight : Node → Sight
  | file content executable => .file content executable
  | link target => .link target
  | dir _ => .dir

/-- What is seen at a place. -/
def look (n : Node) (place : List Name) : Option Sight := (n.get? place).map sight

@[simp] theorem look_nil (n : Node) : n.look [] = some n.sight := by simp [look]

theorem look_append (n : Node) (p q : List Name) : n.look (p ++ q) = (n.get? p).bind (·.look q) := by
  rw [look, get?_append, Option.map_bind]
  rfl

theorem look_dir_cons (entries : Listing Node) (name : Name) (rest : List Name) :
    (dir entries).look (name :: rest) = (Listing.find? name entries).bind (·.look rest) := by
  rw [look, get?_dir_cons, Option.map_bind]
  rfl

theorem look_of_get? {n m : Node} {place : List Name} (h : n.get? place = some m) :
    n.look place = some m.sight := by
  rw [look, h]
  rfl

theorem look_eq_dir {n : Node} {place : List Name} :
    n.look place = some .dir ↔ ∃ entries, n.get? place = some (dir entries) := by
  rw [look]
  cases h : n.get? place with
  | none => simp
  | some m => cases m <;> simp [sight]

theorem look_eq_file {n : Node} {place : List Name} {content : Content} {executable : Bool} :
    n.look place = some (.file content executable) ↔
      n.get? place = some (.file content executable) := by
  rw [look]
  cases h : n.get? place with
  | none => simp
  | some m => cases m <;> simp [sight]

theorem look_eq_none {n : Node} {place : List Name} : n.look place = none ↔ n.get? place = none := by
  rw [look, Option.map_eq_none_iff]

/-- Below what is no directory nothing stands. -/
theorem look_below_of_not_dir {n : Node} {place : List Name} (h : n.look place ≠ some .dir)
    (name : Name) (rest : List Name) : n.look (place ++ name :: rest) = none := by
  rw [look_append]
  cases hm : n.get? place with
  | none => rfl
  | some m =>
    cases m with
    | file _ _ => rfl
    | link _ => rfl
    | dir entries => exact absurd (look_eq_dir.2 ⟨entries, hm⟩) h

/-- Above what stands somewhere are directories. -/
theorem look_eq_dir_of_below {n : Node} {place : List Name} {name : Name} {rest : List Name}
    {seen : Sight} (h : n.look (place ++ name :: rest) = some seen) : n.look place = some .dir := by
  refine Classical.byContradiction fun hdir => ?_
  rw [look_below_of_not_dir hdir] at h
  cases h

/-- What is no directory is above nothing that stands somewhere else. -/
theorem eq_of_isPrefix_of_look {n : Node} {place p : List Name} {seen : Sight}
    (hplace : n.look place ≠ some .dir) (hp : n.look p = some seen) (h : place <+: p) : p = place := by
  obtain ⟨rest, rfl⟩ := h
  cases rest with
  | nil => rw [List.append_nil]
  | cons name rest => exact absurd (look_eq_dir_of_below hp) hplace

/-- What is seen in a directory is its entry. -/
theorem find?_of_get? {n : Node} {place : List Name} {entries : Listing Node}
    (h : n.get? place = some (dir entries)) (name : Name) :
    Listing.find? name entries = n.get? (place ++ [name]) := by
  rw [get?_append, h, Option.bind_some, get?_dir_cons]
  cases Listing.find? name entries <;> simp

/-! ## Edits -/

/-- An edit of the entries of a directory is seen below the directory only. -/
theorem look_editDir_of_not_below (edit : Listing Node → Listing Node) {place p : List Name} (n : Node)
    (h : ∀ name rest, p ≠ place ++ name :: rest) : (editDir edit place n).look p = n.look p := by
  induction place generalizing n p with
  | nil =>
    cases p with
    | nil => cases n <;> simp [editDir, sight]
    | cons name rest => exact absurd rfl (h name rest)
  | cons a place ih =>
    cases n with
    | file _ _ => rfl
    | link _ => rfl
    | dir entries =>
      rw [editDir]
      cases hchild : Listing.find? a entries with
      | none => rfl
      | some child =>
        cases p with
        | nil => simp [sight]
        | cons b q =>
          by_cases hb : b = a
          · subst hb
            have hq : ∀ name rest, q ≠ place ++ name :: rest := by
              rintro name rest rfl
              exact h name rest rfl
            simp only [look_dir_cons, Listing.find?_put_self, hchild, Option.bind_some]
            exact ih child hq
          · simp only [look_dir_cons, Listing.find?_put_ne _ _ hb]

/-- An edit that changes the entry of one name only. -/
def OnlyAt (name : Name) (edit : Listing Node → Listing Node) : Prop :=
  ∀ entries other, other ≠ name → Listing.find? other (edit entries) = Listing.find? other entries

theorem onlyAt_put (name : Name) (child : Node) : OnlyAt name (Listing.put name child) := by
  intro entries other h
  exact Listing.find?_put_ne child entries h

theorem onlyAt_drop (name : Name) : OnlyAt name (Listing.drop name) := by
  intro entries other h
  exact Listing.find?_drop_ne entries h

/-- Away from the entry it changes, and from the directories above, an edit leaves whole nodes as they
are. -/
theorem get?_editDir_of_onlyAt {edit : Listing Node → Listing Node} {name : Name}
    (hedit : OnlyAt name edit) {place p : List Name} (n : Node) (habove : ¬ p <+: place)
    (hat : ¬ place ++ [name] <+: p) : (editDir edit place n).get? p = n.get? p := by
  induction place generalizing n p with
  | nil =>
    cases p with
    | nil => exact absurd List.nil_prefix habove
    | cons b q =>
      have hb : b ≠ name := by
        rintro rfl
        exact hat ⟨q, rfl⟩
      cases n with
      | file _ _ => rfl
      | link _ => rfl
      | dir entries => rw [editDir, get?_dir_cons, get?_dir_cons, hedit entries b hb]
  | cons a place ih =>
    cases n with
    | file _ _ => rfl
    | link _ => rfl
    | dir entries =>
      rw [editDir]
      cases hchild : Listing.find? a entries with
      | none => rfl
      | some child =>
        cases p with
        | nil => exact absurd List.nil_prefix habove
        | cons b q =>
          by_cases hb : b = a
          · subst hb
            simp only [get?_dir_cons, Listing.find?_put_self, hchild, Option.bind_some]
            refine ih child ?_ ?_
            · intro h
              exact habove (List.cons_prefix_cons.2 ⟨rfl, h⟩)
            · intro h
              exact hat (List.cons_prefix_cons.2 ⟨rfl, h⟩)
          · simp only [get?_dir_cons, Listing.find?_put_ne _ _ hb]

theorem look_editDir_of_onlyAt {edit : Listing Node → Listing Node} {name : Name}
    (hedit : OnlyAt name edit) {place p : List Name} (n : Node) (hat : ¬ place ++ [name] <+: p) :
    (editDir edit place n).look p = n.look p := by
  by_cases habove : p <+: place
  · apply look_editDir_of_not_below
    rintro b rest rfl
    have hlength := habove.length_le
    simp only [List.length_append, List.length_cons] at hlength
    omega
  · rw [look, get?_editDir_of_onlyAt hedit n habove hat]
    rfl

theorem get?_put {n : Node} {place : List Name} (h : n.look place = some .dir) (name : Name)
    (child : Node) (rest : List Name) :
    (n.put place name child).get? (place ++ name :: rest) = child.get? rest := by
  obtain ⟨entries, hentries⟩ := look_eq_dir.1 h
  rw [get?_append, put, get?_editDir_self hentries, Option.bind_some, get?_dir_cons,
    Listing.find?_put_self, Option.bind_some]

theorem get?_put_self {n : Node} {place : List Name} (h : n.look place = some .dir) (name : Name)
    (child : Node) : (n.put place name child).get? (place ++ [name]) = some child := by
  rw [get?_put h, get?_nil]

theorem look_put {n : Node} {place : List Name} (h : n.look place = some .dir) (name : Name)
    (child : Node) (rest : List Name) :
    (n.put place name child).look (place ++ name :: rest) = child.look rest := by
  rw [look, get?_put h]
  rfl

theorem look_put_elsewhere (n : Node) {place p : List Name} {name : Name} (child : Node)
    (h : ¬ place ++ [name] <+: p) : (n.put place name child).look p = n.look p :=
  look_editDir_of_onlyAt (onlyAt_put name child) n h

theorem get?_put_elsewhere (n : Node) {place p : List Name} {name : Name} (child : Node)
    (habove : ¬ p <+: place) (hat : ¬ place ++ [name] <+: p) :
    (n.put place name child).get? p = n.get? p :=
  get?_editDir_of_onlyAt (onlyAt_put name child) n habove hat

theorem look_drop_elsewhere (n : Node) {place p : List Name} {name : Name}
    (h : ¬ place ++ [name] <+: p) : (n.drop place name).look p = n.look p :=
  look_editDir_of_onlyAt (onlyAt_drop name) n h

theorem get?_drop_elsewhere (n : Node) {place p : List Name} {name : Name}
    (habove : ¬ p <+: place) (hat : ¬ place ++ [name] <+: p) : (n.drop place name).get? p = n.get? p :=
  get?_editDir_of_onlyAt (onlyAt_drop name) n habove hat

/-- Nothing stands where an entry was dropped, nor below. -/
theorem look_drop (n : Node) (place : List Name) (name : Name) (rest : List Name) :
    (n.drop place name).look (place ++ name :: rest) = none := by
  by_cases h : n.look place = some .dir
  · obtain ⟨entries, hentries⟩ := look_eq_dir.1 h
    rw [look_append, drop, get?_editDir_self hentries, Option.bind_some, look_dir_cons,
      Listing.find?_drop_self, Option.bind_none]
  · apply look_below_of_not_dir
    rwa [drop, look_editDir_of_not_below]
    intro b q hq
    simpa using congrArg List.length hq

end Node

end StubRelease
