/-
# StubRelease.Tree.Listing -- the entries of a directory

A listing holds named entries in ascending byte order of their names. `find?` is its view, and every
operation has one equation through it: putting an entry changes the view at its name only, and so does
dropping one. A file system hands the names out in an order of its own, of which nothing is known but that
no name is left out and none comes twice.
-/
import StubRelease.Bytes

namespace StubRelease

/-- The name of a directory entry. -/
abbrev Name := Bytes

/-- Named entries, ascending. -/
abbrev Listing (α : Type) := List (Name × α)

namespace Listing

variable {α : Type}

/-- The entry of a name. -/
def find? (name : Name) : Listing α → Option α
  | [] => none
  | (n, a) :: rest => if n = name then some a else find? name rest

/-- Puts an entry under a name, in the place of the one it had. -/
def put (name : Name) (a : α) : Listing α → Listing α
  | [] => [(name, a)]
  | (n, b) :: rest =>
    if n = name then (name, a) :: rest
    else if name < n then (name, a) :: (n, b) :: rest
    else (n, b) :: put name a rest

/-- Takes the entry of a name out. -/
def drop (name : Name) : Listing α → Listing α
  | [] => []
  | (n, b) :: rest => if n = name then drop name rest else (n, b) :: drop name rest

/-- The names of a listing. -/
def names (l : Listing α) : List Name := l.map (·.1)

/-- Ascending names, none twice. -/
def Sorted (l : Listing α) : Prop := l.names.Pairwise (· < ·)

@[simp] theorem find?_nil (name : Name) : find? name ([] : Listing α) = none := rfl

@[simp] theorem find?_put_self (name : Name) (a : α) (l : Listing α) :
    find? name (put name a l) = some a := by
  induction l with
  | nil => simp [put, find?]
  | cons e rest ih =>
    obtain ⟨n, b⟩ := e
    by_cases h : n = name
    · simp [put, find?, h]
    · by_cases hlt : name < n
      · simp [put, find?, h, hlt]
      · simp [put, find?, h, hlt, ih]

theorem find?_put_ne {name other : Name} (a : α) (l : Listing α) (h : other ≠ name) :
    find? other (put name a l) = find? other l := by
  induction l with
  | nil => simp [put, find?, h.symm]
  | cons e rest ih =>
    obtain ⟨n, b⟩ := e
    by_cases hn : n = name
    · subst hn; simp [put, find?, h.symm]
    · by_cases hlt : name < n
      · simp [put, find?, hn, hlt, h.symm]
      · simp [put, find?, hn, hlt, ih]

@[simp] theorem find?_drop_self (name : Name) (l : Listing α) : find? name (drop name l) = none := by
  induction l with
  | nil => rfl
  | cons e rest ih =>
    obtain ⟨n, b⟩ := e
    by_cases h : n = name <;> simp [drop, find?, h, ih]

theorem find?_drop_ne {name other : Name} (l : Listing α) (h : other ≠ name) :
    find? other (drop name l) = find? other l := by
  induction l with
  | nil => rfl
  | cons e rest ih =>
    obtain ⟨n, b⟩ := e
    by_cases hn : n = name
    · subst hn; simp [drop, find?, h.symm, ih]
    · by_cases ho : n = other
      · subst ho; simp [drop, find?, hn]
      · simp [drop, find?, hn, ho, ih]

/-- A name that is there after something was put in was put in or there before. -/
theorem mem_names_put {name other : Name} {a : α} {l : Listing α} (h : other ∈ (put name a l).names) :
    other = name ∨ other ∈ l.names := by
  induction l with
  | nil => simpa [put, names] using h
  | cons e rest ih =>
    obtain ⟨n, b⟩ := e
    by_cases hn : n = name
    · simp only [put, hn, if_true, names, List.map_cons, List.mem_cons] at h ⊢
      exact h.imp_right Or.inr
    · by_cases hlt : name < n
      · simpa [put, hn, hlt, names] using h
      · simp only [put, hn, hlt, if_false, names, List.map_cons, List.mem_cons] at h ⊢
        rcases h with h | h
        · exact .inr (.inl h)
        · exact (ih h).imp_right .inr

/-- What is put in keeps the order. -/
theorem Sorted.put {l : Listing α} (h : l.Sorted) (name : Name) (a : α) : (put name a l).Sorted := by
  induction l with
  | nil => simp [Listing.put, Sorted, names]
  | cons e rest ih =>
    obtain ⟨n, b⟩ := e
    obtain ⟨hfirst, hrest⟩ := List.pairwise_cons.1 h
    by_cases hn : n = name
    · subst hn
      simpa [Listing.put, Sorted, names] using h
    · by_cases hlt : name < n
      · simp only [Listing.put, hn, hlt, if_false, if_true]
        refine List.pairwise_cons.2 ⟨fun other hother => ?_, h⟩
        rcases List.mem_cons.1 hother with rfl | hother
        · exact hlt
        · exact List.lt_trans hlt (hfirst other hother)
      · simp only [Listing.put, hn, hlt, if_false]
        refine List.pairwise_cons.2 ⟨fun other hother => ?_, ih hrest⟩
        rcases mem_names_put hother with rfl | hother
        · exact (List.le_iff_lt_or_eq.1 (List.not_lt.1 hlt)).resolve_right hn
        · exact hfirst other hother

/-! ## The order of the names -/

/-- The order in which the names in the directory at a path are handed out. -/
structure Order where
  arrange : Bytes → List Name → List Name
  perm (path : Bytes) (names : List Name) : (arrange path names).Perm names

namespace Order

/-- The names as they stand in the listing. -/
def ascending : Order := ⟨fun _ names => names, fun _ _ => .rfl⟩

/-- The names from the last one to the first. -/
def descending : Order := ⟨fun _ names => names.reverse, fun _ names => names.reverse_perm⟩

@[simp] theorem mem_arrange {order : Order} {path : Bytes} {names : List Name} {name : Name} :
    name ∈ order.arrange path names ↔ name ∈ names := (order.perm path names).mem_iff

end Order

/-- The entries of a listing, as their names are given. -/
def inOrder (order : List Name) (l : Listing α) : List (Name × α) :=
  order.filterMap fun name => (find? name l).map (name, ·)

end Listing

end StubRelease
