/-
# StubRelease.Proofs.Keys -- the keys of a document

A document is built line by line, and every line edits the table read so far. An edit sets a key, in place or at
the end, so no table ever gets a key twice. Main statement: the keys of a document's top-level table are distinct
(`parse_distinct`).
-/
import Mathlib.Data.List.Nodup
import StubRelease.Toml.Document

namespace StubRelease.Toml

/-- No key stands twice in a table. -/
def Entries.Distinct (entries : Entries) : Prop := (entries.map Prod.fst).Nodup

namespace Entries

variable {entries : Entries} {key : String}

theorem mem_keys_set {value : Value} {k : String} :
    k ∈ (set key value entries).map Prod.fst ↔ k = key ∨ k ∈ entries.map Prod.fst := by
  induction entries with
  | nil => simp [set]
  | cons entry rest ih =>
    unfold set
    by_cases h : entry.1 = key
    · rw [if_pos h]
      simp [h]
    · rw [if_neg h, List.map_cons, List.mem_cons, ih, List.map_cons, List.mem_cons]
      tauto

theorem Distinct.set (h : Distinct entries) (value : Value) : Distinct (set key value entries) := by
  induction entries with
  | nil => exact List.nodup_singleton key
  | cons entry rest ih =>
    obtain ⟨hnew, hrest⟩ := List.nodup_cons.1 h
    unfold Entries.set
    by_cases hkey : entry.1 = key
    · rw [if_pos hkey]
      exact h
    · rw [if_neg hkey]
      refine List.nodup_cons.2 ⟨?_, ih hrest⟩
      rw [mem_keys_set]
      exact fun hmem => hmem.elim hkey hnew

/-- Of a key that stands once one value is read. -/
theorem Distinct.eq_of_mem (h : Distinct entries) {v w : Value} (hv : (key, v) ∈ entries)
    (hw : (key, w) ∈ entries) : v = w := by
  have := List.inj_on_of_nodup_map h hv hw rfl
  exact (Prod.mk.inj this).2

end Entries

/-! ## Edits of a table -/

/-- An edit that gives no key twice. -/
def KeepsDistinct (edit : Open → Option Open) : Prop :=
  ∀ t u, edit t = some u → t.entries.Distinct → u.entries.Distinct

namespace Open

theorem addKey_keeps (dotted : Bool) (key : String) (value : Value) : KeepsDistinct (addKey dotted key value) := by
  intro t u h ht
  unfold addKey at h
  split at h
  · cases h
  split at h
  · cases h
    exact ht.set _
  · cases h

theorem openTable_keeps (key : String) : KeepsDistinct (openTable key) := by
  intro t u h ht
  unfold openTable at h
  split at h <;> cases h <;> exact ht.set _

theorem openItem_keeps (key : String) : KeepsDistinct (openItem key) := by
  intro t u h ht
  unfold openItem at h
  split at h <;> cases h <;> exact ht.set _

/-- Wherever an edit is made below a table, in the table itself a key is set at most. -/
theorem within_keeps (viaDots : Bool) {edit : Open → Option Open} (hedit : KeepsDistinct edit) (path : List String) :
    KeepsDistinct (within viaDots edit path) := by
  intro t u h ht
  cases path with
  | nil => exact hedit t u h ht
  | cons key rest =>
    unfold within at h
    split at h
    · obtain ⟨sub, -, rfl⟩ := Option.map_eq_some_iff.1 h
      exact ht.set _
    · split at h
      · cases h
      · obtain ⟨sub, -, rfl⟩ := Option.map_eq_some_iff.1 h
        exact ht.set _
    · obtain ⟨sub, -, rfl⟩ := Option.map_eq_some_iff.1 h
      exact ht.set _
    · cases h

theorem insert_keeps (path : List String) (key : String) (value : Value) :
    KeepsDistinct (insert path key value) :=
  within_keeps true (addKey_keeps _ key value) path

end Open

/-! ## Lines -/

/-- A reader succeeds by succeeding step by step. -/
theorem bind_eq_some {α β : Type} {x : Reader α} {f : α → Reader β} {cs rest : List Char} {b : β} :
    (x >>= f) cs = some (b, rest) ↔ ∃ a mid, x cs = some (a, mid) ∧ f a mid = some (b, rest) := by
  simp only [bind, StateT.bind, Option.bind_eq_some_iff, Prod.exists]

theorem lift_eq_some {α : Type} {x : Option α} {a : α} {cs rest : List Char}
    (h : (StateT.lift x : Reader α) cs = some (a, rest)) : x = some a := by
  obtain ⟨b, hb, heq⟩ := Option.bind_eq_some_iff.1 h
  cases heq
  exact hb

namespace Draft

/-- A reader that gives the table of a draft no key twice. -/
def Keeps (d : Draft) (x : Reader Draft) : Prop :=
  ∀ cs d' rest, x cs = some (d', rest) → d.top.entries.Distinct → d'.top.entries.Distinct

theorem pure_keeps (d : Draft) : Keeps d (pure d) := by
  intro cs d' rest h hd
  cases h
  exact hd

/-- A key line edits the table of the last header. -/
theorem keyLine_keeps (d : Draft) : Keeps d d.keyLine := by
  intro cs d' rest h hd
  unfold keyLine at h
  obtain ⟨⟨path, key⟩, _, -, h⟩ := bind_eq_some.1 h
  obtain ⟨_, _, -, h⟩ := bind_eq_some.1 h
  obtain ⟨_, _, -, h⟩ := bind_eq_some.1 h
  obtain ⟨_, _, -, h⟩ := bind_eq_some.1 h
  obtain ⟨v, _, -, h⟩ := bind_eq_some.1 h
  obtain ⟨top, _, hedit, h⟩ := bind_eq_some.1 h
  cases h
  exact Open.within_keeps false (Open.insert_keeps path key v) d.current _ _ (lift_eq_some hedit) hd

theorem tableHeader_keeps (d : Draft) : Keeps d d.tableHeader := by
  intro cs d' rest h hd
  unfold tableHeader at h
  obtain ⟨_, _, -, h⟩ := bind_eq_some.1 h
  obtain ⟨_, _, -, h⟩ := bind_eq_some.1 h
  obtain ⟨⟨path, key⟩, _, -, h⟩ := bind_eq_some.1 h
  obtain ⟨_, _, -, h⟩ := bind_eq_some.1 h
  obtain ⟨top, _, hedit, h⟩ := bind_eq_some.1 h
  cases h
  exact Open.within_keeps false (Open.openTable_keeps key) path _ _ (lift_eq_some hedit) hd

theorem itemHeader_keeps (d : Draft) : Keeps d d.itemHeader := by
  intro cs d' rest h hd
  unfold itemHeader at h
  obtain ⟨_, _, -, h⟩ := bind_eq_some.1 h
  obtain ⟨_, _, -, h⟩ := bind_eq_some.1 h
  obtain ⟨_, _, -, h⟩ := bind_eq_some.1 h
  obtain ⟨⟨path, key⟩, _, -, h⟩ := bind_eq_some.1 h
  obtain ⟨_, _, -, h⟩ := bind_eq_some.1 h
  obtain ⟨_, _, -, h⟩ := bind_eq_some.1 h
  obtain ⟨top, _, hedit, h⟩ := bind_eq_some.1 h
  cases h
  exact Open.within_keeps false (Open.openItem_keeps key) path _ _ (lift_eq_some hedit) hd

/-- The end of a line edits nothing. -/
theorem Keeps.ended {d : Draft} {x : Reader Draft} (hx : Keeps d x) :
    Keeps d (x >>= fun read => endLine >>= fun _ => pure read) := by
  intro cs d' rest h hd
  obtain ⟨read, _, hread, h⟩ := bind_eq_some.1 h
  obtain ⟨_, _, -, h⟩ := bind_eq_some.1 h
  cases h
  exact hx _ _ _ hread hd

theorem line_keeps (d : Draft) : Keeps d d.line := by
  intro cs d' rest h hd
  unfold line at h
  obtain ⟨_, _, -, h⟩ := bind_eq_some.1 h
  obtain ⟨found, left, -, h⟩ := bind_eq_some.1 h
  -- what a line holds shows in what it begins with
  split at h
  · exact (pure_keeps d).ended left _ _ h hd
  · exact (pure_keeps d).ended left _ _ h hd
  · exact (pure_keeps d).ended left _ _ h hd
  · exact (pure_keeps d).ended left _ _ h hd
  · exact (itemHeader_keeps d).ended left _ _ h hd
  · exact (tableHeader_keeps d).ended left _ _ h hd
  · exact (keyLine_keeps d).ended left _ _ h hd

theorem lines_keeps {n : Nat} {d d' : Draft} {cs : List Char} (h : lines n d cs = some d')
    (hd : d.top.entries.Distinct) : d'.top.entries.Distinct := by
  -- on the lines, each of which keeps the keys distinct
  induction n generalizing d cs with
  | zero =>
    cases cs with
    | nil =>
      cases h
      exact hd
    | cons _ _ => cases h
  | succ n ih =>
    cases cs with
    | nil =>
      cases h
      exact hd
    | cons c cs =>
      unfold lines at h
      cases hline : d.line (c :: cs) with
      | none =>
        rw [hline] at h
        cases h
      | some result =>
        rw [hline] at h
        exact ih h (line_keeps d _ _ _ hline hd)

end Draft

/-- Main statement: the keys of a document are distinct. -/
theorem parse_distinct {text : String} {entries : Entries} (h : parse text = some entries) : entries.Distinct := by
  unfold parse at h
  obtain ⟨d, hlines, rfl⟩ := Option.map_eq_some_iff.1 h
  exact Draft.lines_keeps hlines List.nodup_nil

end StubRelease.Toml
