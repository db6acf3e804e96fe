/-
# StubRelease.Proofs.Tree.Plain -- trees without links

A plain tree holds no link anywhere, its directories list their entries in ascending order, and every
name in it is one step of a path. Putting a plain node into a plain tree and dropping an entry of it keep
it plain.
-/
import StubRelease.Proofs.Tree.View

namespace StubRelease.Node

/-! ## No link anywhere -/

/-- No link stands anywhere in a tree. -/
def LinkFree (n : Node) : Prop := ∀ place target, n.look place ≠ some (.link target)

theorem linkFree_file (content : Content) (executable : Bool) : (file content executable).LinkFree := by
  intro place target
  cases place with
  | nil => simp [sight]
  | cons name rest =>
    intro h
    cases h

theorem linkFree_emptyDir : emptyDir.LinkFree := by
  intro place target
  cases place with
  | nil => simp [emptyDir, sight]
  | cons name rest =>
    intro h
    cases h

namespace LinkFree

variable {n : Node} (hn : n.LinkFree)

include hn

/-- What stands in a tree without links is without links. -/
theorem get? {place : List Name} {m : Node} (h : n.get? place = some m) : m.LinkFree := by
  intro p target hp
  refine hn (place ++ p) target ?_
  rw [look_append, h, Option.bind_some, hp]

theorem put (place : List Name) (name : Name) {child : Node} (hchild : child.LinkFree) :
    (n.put place name child).LinkFree := by
  intro p target hp
  by_cases hat : place ++ [name] <+: p
  · obtain ⟨rest, rfl⟩ := hat
    rw [List.append_assoc] at hp
    have hdir := look_eq_dir_of_below hp
    rw [Node.put, look_editDir_of_not_below _ _ (by simp)] at hdir
    rw [List.singleton_append, look_put hdir] at hp
    exact hchild rest target hp
  · rw [look_put_elsewhere n child hat] at hp
    exact hn p target hp

theorem drop (place : List Name) (name : Name) : (n.drop place name).LinkFree := by
  intro p target hp
  by_cases hat : place ++ [name] <+: p
  · obtain ⟨rest, rfl⟩ := hat
    rw [List.append_assoc, List.singleton_append, look_drop] at hp
    cases hp
  · rw [look_drop_elsewhere n hat] at hp
    exact hn p target hp

end LinkFree

/-! ## Well-formed directories -/

/-- Directories list their entries in ascending order, under names that are steps of a path. -/
inductive WellFormed : Node → Prop
  | file (content : Content) (executable : Bool) : WellFormed (.file content executable)
  | link (target : Bytes) : WellFormed (.link target)
  | dir {entries : Listing Node} : entries.Sorted → (∀ entry ∈ entries, IsName entry.1) →
      (∀ entry ∈ entries, WellFormed entry.2) → WellFormed (.dir entries)

theorem wellFormed_emptyDir : emptyDir.WellFormed :=
  .dir (by simp [Listing.Sorted, Listing.names]) (by simp) (by simp)

namespace WellFormed

theorem find? {entries : Listing Node} (h : (Node.dir entries).WellFormed) {name : Name} {child : Node}
    (hchild : Listing.find? name entries = some child) : IsName name ∧ child.WellFormed := by
  cases h with
  | dir _ hnames hentries =>
    have hmem := Listing.mem_of_find? hchild
    exact ⟨hnames _ hmem, hentries _ hmem⟩

theorem get? {n m : Node} {place : List Name} (hn : n.WellFormed) (h : n.get? place = some m) :
    m.WellFormed := by
  induction place generalizing n with
  | nil =>
    rw [get?_nil] at h
    cases h
    exact hn
  | cons name rest ih =>
    cases n with
    | file _ _ => cases h
    | link _ => cases h
    | dir entries =>
      rw [get?_dir_cons] at h
      obtain ⟨child, hchild, hrest⟩ := Option.bind_eq_some_iff.1 h
      exact ih (hn.find? hchild).2 hrest

/-- What stands in a well-formed tree stands under names. -/
theorem isName_of_look {n : Node} (hn : n.WellFormed) {place : List Name} (h : n.look place ≠ none) :
    ∀ name ∈ place, IsName name := by
  induction place generalizing n with
  | nil => simp
  | cons first rest ih =>
    cases n with
    | file _ _ => exact absurd rfl h
    | link _ => exact absurd rfl h
    | dir entries =>
      rw [look_dir_cons] at h
      cases hchild : Listing.find? first entries with
      | none => simp [hchild] at h
      | some child =>
        rw [hchild, Option.bind_some] at h
        obtain ⟨hname, hchildWF⟩ := hn.find? hchild
        intro name hmem
        rcases List.mem_cons.1 hmem with rfl | hmem
        · exact hname
        · exact ih hchildWF h name hmem

/-- An edit that keeps every listing in order and brings no bad entry keeps a tree well formed. -/
theorem editDir {edit : Listing Node → Listing Node} {n : Node} (hn : n.WellFormed)
    (hedit : ∀ entries, (Node.dir entries).WellFormed → (Node.dir (edit entries)).WellFormed)
    (place : List Name) : (Node.editDir edit place n).WellFormed := by
  induction place generalizing n with
  | nil =>
    cases n with
    | file _ _ => exact hn
    | link _ => exact hn
    | dir entries => exact hedit entries hn
  | cons name rest ih =>
    cases n with
    | file _ _ => exact hn
    | link _ => exact hn
    | dir entries =>
      rw [Node.editDir]
      cases hchild : Listing.find? name entries with
      | none => exact hn
      | some child =>
        obtain ⟨hname, hchildWF⟩ := hn.find? hchild
        cases hn with
        | dir hsorted hnames hentries =>
          refine .dir (hsorted.put name _) ?_ ?_
          · intro entry hentry
            rcases Listing.mem_put hentry with rfl | hmem
            · exact hname
            · exact hnames entry hmem
          · intro entry hentry
            rcases Listing.mem_put hentry with rfl | hmem
            · exact ih hchildWF
            · exact hentries entry hmem

theorem put {n child : Node} {name : Name} (hn : n.WellFormed) (place : List Name) (hname : IsName name)
    (hchild : child.WellFormed) : (n.put place name child).WellFormed := by
  refine hn.editDir (fun entries h => ?_) place
  cases h with
  | dir hsorted hnames hentries =>
    refine .dir (hsorted.put name child) ?_ ?_
    · intro entry hentry
      rcases Listing.mem_put hentry with rfl | hmem
      · exact hname
      · exact hnames entry hmem
    · intro entry hentry
      rcases Listing.mem_put hentry with rfl | hmem
      · exact hchild
      · exact hentries entry hmem

theorem drop {n : Node} (hn : n.WellFormed) (place : List Name) (name : Name) :
    (n.drop place name).WellFormed := by
  refine hn.editDir (fun entries h => ?_) place
  cases h with
  | dir hsorted hnames hentries =>
    have hsubset := (Listing.sublist_drop name entries).subset
    exact .dir (hsorted.drop name) (fun entry h => hnames entry (hsubset h)) fun entry h =>
      hentries entry (hsubset h)

end WellFormed

instance (entries : Listing Node) : Decidable (Listing.Sorted entries) :=
  inferInstanceAs (Decidable (List.Pairwise _ _))

mutual

/-- Well-formedness, as it is computed. -/
def isWellFormed : Node → Bool
  | .file _ _ => true
  | .link _ => true
  | .dir entries => decide (Listing.Sorted entries) && entriesAreWellFormed entries

def entriesAreWellFormed : List (Name × Node) → Bool
  | [] => true
  | (name, child) :: rest => decide (IsName name) && child.isWellFormed && entriesAreWellFormed rest

end

mutual

theorem wellFormed_of_isWellFormed : (n : Node) → n.isWellFormed = true → n.WellFormed
  | .file content executable, _ => .file content executable
  | .link target, _ => .link target
  | .dir entries, h => by
    rw [isWellFormed, Bool.and_eq_true, decide_eq_true_iff] at h
    have hentries := wellFormed_of_entriesAreWellFormed entries h.2
    exact .dir h.1 (fun entry hentry => (hentries entry hentry).1) fun entry hentry =>
      (hentries entry hentry).2

theorem wellFormed_of_entriesAreWellFormed : (entries : List (Name × Node)) →
    entriesAreWellFormed entries = true → ∀ entry ∈ entries, IsName entry.1 ∧ entry.2.WellFormed
  | [], _ => by simp
  | (name, child) :: rest, h => by
    rw [entriesAreWellFormed, Bool.and_eq_true, Bool.and_eq_true, decide_eq_true_iff] at h
    intro entry hentry
    rcases List.mem_cons.1 hentry with rfl | hrest
    · exact ⟨h.1.1, wellFormed_of_isWellFormed child h.1.2⟩
    · exact wellFormed_of_entriesAreWellFormed rest h.2 entry hrest

end

/-! ## Plain trees -/

/-- A tree without links in which every directory is well formed. -/
structure Plain (n : Node) : Prop where
  linkFree : n.LinkFree
  wellFormed : n.WellFormed

namespace Plain

theorem file (content : Content) (executable : Bool) : (Node.file content executable).Plain :=
  ⟨linkFree_file content executable, .file content executable⟩

theorem emptyDir : Node.emptyDir.Plain := ⟨linkFree_emptyDir, wellFormed_emptyDir⟩

theorem get? {n m : Node} {place : List Name} (hn : n.Plain) (h : n.get? place = some m) : m.Plain :=
  ⟨hn.linkFree.get? h, hn.wellFormed.get? h⟩

theorem put {n child : Node} {name : Name} (hn : n.Plain) (place : List Name) (hname : IsName name)
    (hchild : child.Plain) : (n.put place name child).Plain :=
  ⟨hn.linkFree.put place name hchild.linkFree, hn.wellFormed.put place hname hchild.wellFormed⟩

theorem drop {n : Node} (hn : n.Plain) (place : List Name) (name : Name) : (n.drop place name).Plain :=
  ⟨hn.linkFree.drop place name, hn.wellFormed.drop place name⟩

/-- A directory lists names, in order. -/
theorem listing {entries : Listing Node} (hn : (Node.dir entries).Plain) :
    entries.Sorted ∧ ∀ name ∈ Listing.names entries, IsName name := by
  cases hn.wellFormed with
  | dir hsorted hnames _ =>
    refine ⟨hsorted, fun name hmem => ?_⟩
    obtain ⟨entry, hentry, rfl⟩ := List.mem_map.1 hmem
    exact hnames entry hentry

end Plain

mutual

/-- That no link stands anywhere, as it is computed. -/
def isLinkFree : Node → Bool
  | .file _ _ => true
  | .link _ => false
  | .dir entries => entriesAreLinkFree entries

def entriesAreLinkFree : List (Name × Node) → Bool
  | [] => true
  | (_, child) :: rest => child.isLinkFree && entriesAreLinkFree rest

end

mutual

theorem linkFree_of_isLinkFree : (n : Node) → n.isLinkFree = true → n.LinkFree
  | .file content executable, _ => linkFree_file content executable
  | .dir entries, h => by
    rw [isLinkFree] at h
    intro place target
    cases place with
    | nil => simp [sight]
    | cons name rest =>
      rw [look_dir_cons]
      cases hchild : Listing.find? name entries with
      | none => simp
      | some child => exact linkFree_of_entriesAreLinkFree entries h _ (Listing.mem_of_find? hchild) rest target

theorem linkFree_of_entriesAreLinkFree : (entries : List (Name × Node)) →
    entriesAreLinkFree entries = true → ∀ entry ∈ entries, entry.2.LinkFree
  | [], _ => by simp
  | (_, child) :: rest, h => by
    rw [entriesAreLinkFree, Bool.and_eq_true] at h
    intro entry hentry
    rcases List.mem_cons.1 hentry with rfl | hrest
    · exact linkFree_of_isLinkFree child h.1
    · exact linkFree_of_entriesAreLinkFree rest h.2 entry hrest

end

/-- Plainness, as it is computed. -/
def isPlain (n : Node) : Bool := n.isLinkFree && n.isWellFormed

theorem plain_of_isPlain {n : Node} (h : n.isPlain = true) : n.Plain := by
  rw [isPlain, Bool.and_eq_true] at h
  exact ⟨linkFree_of_isLinkFree n h.1, wellFormed_of_isWellFormed n h.2⟩

end StubRelease.Node
