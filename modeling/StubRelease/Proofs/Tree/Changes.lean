/-
# StubRelease.Proofs.Tree.Changes -- where two trees differ

A step is described by the places at which something else is seen after it (`ChangesIn`), by the
directories it keeps (`KeepsDirs`), and, when it only makes directories, by growth (`Grows`). Trees that
look the same everywhere are the same (`eq_of_look`), so what is known about sight is known about nodes.
-/
import StubRelease.Proofs.Tree.Plain

namespace StubRelease

/-- The places strictly below a place. -/
def Inside (w p : List Name) : Prop := ∃ name rest, p = w ++ name :: rest

theorem not_inside_self (w : List Name) : ¬ Inside w w := by
  rintro ⟨name, rest, h⟩
  simpa using congrArg List.length h

/-- What is at or below an entry is inside the entry's directory. -/
theorem inside_of_entry {w p : List Name} {name : Name} (h : w ++ [name] <+: p) : Inside w p := by
  obtain ⟨rest, rfl⟩ := h
  exact ⟨name, rest, by simp⟩

theorem Inside.isPrefix {w p : List Name} (h : Inside w p) : w <+: p := by
  obtain ⟨name, rest, rfl⟩ := h
  exact List.prefix_append _ _

theorem inside_of_isPrefix {v w p : List Name} (h : v <+: w) (hp : Inside w p) : Inside v p := by
  obtain ⟨middle, rfl⟩ := h
  obtain ⟨name, rest, rfl⟩ := hp
  cases middle with
  | nil => exact ⟨name, rest, by simp⟩
  | cons first middle => exact ⟨first, middle ++ name :: rest, by simp⟩

/-! ## Trees that look the same -/

namespace Listing

variable {α : Type}

/-- Sorted listings with the same entries are the same. -/
theorem eq_of_find? {l m : Listing α} (hl : l.Sorted) (hm : m.Sorted)
    (h : ∀ name, find? name l = find? name m) : l = m := by
  induction l generalizing m with
  | nil =>
    cases m with
    | nil => rfl
    | cons entry rest =>
      have := h entry.1
      simp [find?] at this
  | cons entry rest ih =>
    obtain ⟨n, a⟩ := entry
    cases m with
    | nil =>
      have := h n
      simp [find?] at this
    | cons other rest' =>
      obtain ⟨n', a'⟩ := other
      obtain ⟨hfirst, hrest⟩ := List.pairwise_cons.1 hl
      obtain ⟨hfirst', hrest'⟩ := List.pairwise_cons.1 hm
      -- the smaller of the two first names would be missing on the other side
      have hn : n = n' := by
        have hmem : (n, a) ∈ (n', a') :: rest' :=
          mem_of_find? (by rw [← h n]; simp [find?])
        have hmem' : (n', a') ∈ (n, a) :: rest :=
          mem_of_find? (by rw [h n']; simp [find?])
        rcases List.mem_cons.1 hmem with heq | hin
        · exact (Prod.mk.inj heq).1
        · rcases List.mem_cons.1 hmem' with heq | hin'
          · exact (Prod.mk.inj heq).1.symm
          · have hlt : n' < n := hfirst' n (List.mem_map.2 ⟨_, hin, rfl⟩)
            have hlt' : n < n' := hfirst n' (List.mem_map.2 ⟨_, hin', rfl⟩)
            exact absurd (List.lt_trans hlt hlt') (List.lt_irrefl _)
      subst hn
      have ha : a = a' := by
        have := h n
        simpa [find?] using this
      subst ha
      congr 1
      refine ih hrest hrest' fun name => ?_
      by_cases hname : n = name
      · subst hname
        have hnone {k : Listing α} (hk : ∀ b ∈ names k, n < b) : find? n k = none := by
          cases hfind : find? n k with
          | none => rfl
          | some b =>
            exact absurd (hk n (List.mem_map.2 ⟨_, mem_of_find? hfind, rfl⟩)) (List.lt_irrefl n)
        rw [hnone hfirst, hnone hfirst']
      · have := h name
        rwa [find?, if_neg hname, find?, if_neg hname] at this

end Listing

namespace Node

theorem eq_of_look {n m : Node} (hn : n.WellFormed) (hm : m.WellFormed)
    (h : ∀ place, n.look place = m.look place) : n = m := by
  -- on the first tree: what is seen at the empty place decides its kind, what is seen below decides its entries
  induction hn generalizing m with
  | file content executable => cases m <;> simpa [sight] using h []
  | link target => cases m <;> simpa [sight] using h []
  | @dir entries hsorted _ hentries ih =>
    cases hm with
    | file _ _ =>
      have := h []
      simp [sight] at this
    | link _ =>
      have := h []
      simp [sight] at this
    | @dir entries' hsorted' _ hentries' =>
      congr 1
      refine Listing.eq_of_find? hsorted hsorted' fun name => ?_
      have hchild (rest : List Name) := h (name :: rest)
      simp only [look_dir_cons] at hchild
      cases hfind : Listing.find? name entries with
      | none =>
        cases hfind' : Listing.find? name entries' with
        | none => rfl
        | some child' =>
          have := hchild []
          simp [hfind, hfind'] at this
      | some child =>
        cases hfind' : Listing.find? name entries' with
        | none =>
          have := hchild []
          simp [hfind, hfind'] at this
        | some child' =>
          have hmem := Listing.mem_of_find? hfind
          have hmem' := Listing.mem_of_find? hfind'
          refine congrArg some (ih _ hmem (hentries' _ hmem') fun rest => ?_)
          have := hchild rest
          rwa [hfind, hfind'] at this

/-- What looks the same from a place on is the same node. -/
theorem get?_eq_of_look {n m : Node} (hn : n.WellFormed) (hm : m.WellFormed) {place : List Name}
    (h : ∀ p, place <+: p → n.look p = m.look p) : n.get? place = m.get? place := by
  have hsight (rest : List Name) : (n.get? place).bind (·.look rest) =
      (m.get? place).bind (·.look rest) := by
    rw [← look_append, ← look_append]
    exact h _ (List.prefix_append _ _)
  cases hnode : n.get? place with
  | none =>
    cases hnode' : m.get? place with
    | none => rfl
    | some b =>
      have := hsight []
      simp [hnode, hnode'] at this
  | some a =>
    cases hnode' : m.get? place with
    | none =>
      have := hsight []
      simp [hnode, hnode'] at this
    | some b =>
      refine congrArg some (eq_of_look (hn.get? hnode) (hm.get? hnode') fun rest => ?_)
      have := hsight rest
      rwa [hnode, hnode'] at this

/-! ## Where something changes -/

/-- The second tree is plain and is seen to differ from the first at some of the places in `P` only. -/
structure ChangesIn (P : List Name → Prop) (n m : Node) : Prop where
  plain : m.Plain
  look : ∀ p, ¬ P p → m.look p = n.look p

namespace ChangesIn

variable {P Q : List Name → Prop} {n m k : Node}

theorem refl (hn : n.Plain) : ChangesIn P n n := ⟨hn, fun _ _ => rfl⟩

theorem trans (h : ChangesIn P n m) (h' : ChangesIn P m k) : ChangesIn P n k :=
  ⟨h'.plain, fun p hp => (h'.look p hp).trans (h.look p hp)⟩

theorem mono (hPQ : ∀ p, P p → Q p) (h : ChangesIn P n m) : ChangesIn Q n m :=
  ⟨h.plain, fun p hp => h.look p fun hP => hp (hPQ p hP)⟩

theorem put (hn : n.Plain) (place : List Name) {name : Name} (hname : IsName name) {child : Node}
    (hchild : child.Plain) : ChangesIn (place ++ [name] <+: ·) n (n.put place name child) :=
  ⟨hn.put place hname hchild, fun _ hp => look_put_elsewhere n child hp⟩

theorem drop (hn : n.Plain) (place : List Name) (name : Name) :
    ChangesIn (place ++ [name] <+: ·) n (n.drop place name) :=
  ⟨hn.drop place name, fun _ hp => look_drop_elsewhere n hp⟩

/-- What is taken from one place and put at another is seen at these two places only. -/
theorem move (hn : n.Plain) (source : List Name) (taken : Name) (place : List Name) {name : Name}
    (hname : IsName name) {child : Node} (hchild : child.Plain) :
    ChangesIn (fun p => source ++ [taken] <+: p ∨ place ++ [name] <+: p) n
      ((n.drop source taken).put place name child) := by
  have hdrop := drop hn source taken
  have hput := put hdrop.plain place hname hchild
  exact (hdrop.mono fun _ => .inl).trans (hput.mono fun _ => .inr)

/-- An entry without anything below it is seen at its own place only, if nothing is lost below it. -/
theorem put_here {n child : Node} {place : List Name} {name : Name} (hn : n.Plain)
    (hname : IsName name) (hchild : child.Plain) (hplace : n.look place = some .dir)
    (hold : n.look (place ++ [name]) ≠ some .dir)
    (hempty : ∀ first rest, child.look (first :: rest) = none) :
    ChangesIn (· = place ++ [name]) n (n.put place name child) := by
  refine ⟨hn.put place hname hchild, fun p hp => ?_⟩
  by_cases hat : place ++ [name] <+: p
  · obtain ⟨rest, rfl⟩ := hat
    cases rest with
    | nil => exact absurd (List.append_nil _) hp
    | cons first rest =>
      rw [look_below_of_not_dir hold, List.append_assoc, List.singleton_append, look_put hplace, hempty]
  · exact look_put_elsewhere n child hat

/-- An entry without anything below it goes from its own place only. -/
theorem drop_here {n : Node} {place : List Name} {name : Name} (hn : n.Plain)
    (hempty : ∀ first rest, n.look (place ++ [name] ++ first :: rest) = none) :
    ChangesIn (· = place ++ [name]) n (n.drop place name) := by
  refine ⟨hn.drop place name, fun p hp => ?_⟩
  by_cases hat : place ++ [name] <+: p
  · obtain ⟨rest, rfl⟩ := hat
    cases rest with
    | nil => exact absurd (List.append_nil _) hp
    | cons first rest => rw [hempty, List.append_assoc, List.singleton_append, look_drop]
  · exact look_drop_elsewhere n hat

/-- What stands at a place is the same node unless something changes at or below the place. -/
theorem get?_eq (h : ChangesIn P n m) (hn : n.Plain) {place : List Name}
    (hplace : ∀ p, place <+: p → ¬ P p) : m.get? place = n.get? place :=
  get?_eq_of_look h.plain.wellFormed hn.wellFormed fun p hp => h.look p (hplace p hp)

end ChangesIn

/-! ## Directories that stay -/

/-- Every directory of the first tree is one of the second. -/
def KeepsDirs (n m : Node) : Prop := ∀ p, n.look p = some .dir → m.look p = some .dir

namespace KeepsDirs

variable {n m k : Node}

theorem refl (n : Node) : KeepsDirs n n := fun _ h => h

theorem trans (h : KeepsDirs n m) (h' : KeepsDirs m k) : KeepsDirs n k := fun p hp => h' p (h p hp)

/-- Directories are kept by changes elsewhere. -/
theorem of_changesIn {P : List Name → Prop} {base : Node} (hbase : KeepsDirs base n)
    (h : ChangesIn P n m) (hP : ∀ p, base.look p = some .dir → ¬ P p) : KeepsDirs base m := by
  intro p hp
  rw [h.look p (hP p hp)]
  exact hbase p hp

/-- An entry that is no directory can be put and dropped without one being lost. -/
theorem put {place : List Name} {name : Name} (h : n.look (place ++ [name]) ≠ some .dir) (child : Node) :
    KeepsDirs n (n.put place name child) := by
  intro p hp
  rw [look_put_elsewhere, hp]
  intro hat
  exact h (eq_of_isPrefix_of_look h hp hat ▸ hp)

theorem drop {place : List Name} {name : Name} (h : n.look (place ++ [name]) ≠ some .dir) :
    KeepsDirs n (n.drop place name) := by
  intro p hp
  rw [look_drop_elsewhere, hp]
  intro hat
  exact h (eq_of_isPrefix_of_look h hp hat ▸ hp)

end KeepsDirs

/-! ## Growth -/

/-- Directories were made where nothing stood, and nothing else happened. -/
structure Grows (n m : Node) : Prop where
  plain : m.Plain
  look : ∀ p, m.look p = n.look p ∨ n.look p = none ∧ m.look p = some .dir

namespace Grows

variable {n m k : Node}

theorem refl (hn : n.Plain) : Grows n n := ⟨hn, fun _ => .inl rfl⟩

theorem trans (h : Grows n m) (h' : Grows m k) : Grows n k := by
  refine ⟨h'.plain, fun p => ?_⟩
  rcases h.look p with hp | ⟨hp, hp'⟩
  · rcases h'.look p with hq | ⟨hq, hq'⟩
    · exact .inl (hq.trans hp)
    · exact .inr ⟨hp ▸ hq, hq'⟩
  · rcases h'.look p with hq | ⟨hq, -⟩
    · exact .inr ⟨hp, hq.trans hp'⟩
    · rw [hp'] at hq
      cases hq

theorem look_eq (h : Grows n m) {p : List Name} {seen : Sight} (hp : n.look p = some seen) :
    m.look p = some seen := by
  rcases h.look p with heq | ⟨hnone, -⟩
  · rw [heq, hp]
  · rw [hp] at hnone
    cases hnone

theorem keepsDirs (h : Grows n m) : KeepsDirs n m := fun _ hp => h.look_eq hp

/-- A tree grows by an empty directory under a free name. -/
theorem put (hn : n.Plain) {place : List Name} {name : Name} (hname : IsName name)
    (hdir : n.look place = some .dir) (hfree : n.look (place ++ [name]) = none) :
    Grows n (n.put place name .emptyDir) := by
  refine ⟨hn.put place hname .emptyDir, fun p => ?_⟩
  by_cases hat : place ++ [name] <+: p
  · obtain ⟨rest, rfl⟩ := hat
    cases rest with
    | nil =>
      rw [List.append_nil]
      refine .inr ⟨hfree, ?_⟩
      rw [look_put hdir, look_nil]
      rfl
    | cons first rest =>
      refine .inl ?_
      have hnone : n.look (place ++ [name] ++ first :: rest) = none :=
        look_below_of_not_dir (by rw [hfree]; simp) first rest
      rw [hnone, List.append_assoc, List.singleton_append, look_put hdir]
      rfl
  · exact .inl (look_put_elsewhere n _ hat)

end Grows

end Node

end StubRelease
