/-
# StubRelease.Proofs.Selection -- the versions a batch asks for

A list of texts asks for the versions it names, each where it is named first. `Batch.Selects` says which
versions these are and in which order, and leaves only one list of them (`Selects.unique`). The loop over the
texts keeps that what it has collected is selected by the texts it has read (`Selects.snoc`,
`selectFrom_selects`). Main statement: the first text that is no supported version refuses the request, and
without one the selected versions are released, all of them if no text is given; asking for the result again
changes nothing (`validate_selects`).
-/
import Mathlib.Data.List.Nodup
import StubRelease.Request

namespace StubRelease

namespace Version

/-- A text that is a supported version. -/
def IsSupported (value : String) : Prop := value ∈ all.map text

instance (value : String) : Decidable (IsSupported value) := inferInstanceAs (Decidable (_ ∈ _))

theorem isSupported_iff {value : String} : IsSupported value ↔ ∃ v : Version, v.text = value := by
  simp [IsSupported, mem_all]

theorem isSupported_text (v : Version) : IsSupported v.text := isSupported_iff.2 ⟨v, rfl⟩

theorem parse_of_not_isSupported {value : String} (h : ¬ IsSupported value) :
    parse value = .error (.unsupportedVersion value supportedList) := by
  apply parse_eq_error_of_forall_ne
  rintro v rfl
  exact h (isSupported_text v)

theorem nodup_all : all.Nodup := by decide

end Version

namespace Batch

/-! ## What a list of texts selects -/

/-- The versions that a list of texts names, each at the place where it is named first. -/
structure Selects (values : List String) (versions : List Version) : Prop where
  mem_iff : ∀ v, v ∈ versions ↔ v.text ∈ values
  ordered : versions.Pairwise fun v w => values.idxOf v.text < values.idxOf w.text

namespace Selects

variable {values : List String} {versions : List Version}

theorem nil : Selects [] [] := ⟨by simp, .nil⟩

theorem nodup (h : Selects values versions) : versions.Nodup :=
  h.ordered.imp fun hlt heq => by simp [heq] at hlt

/-- One list of versions only is selected. -/
theorem unique {others : List Version} (h : Selects values versions) (h' : Selects values others) :
    versions = others := by
  have hperm : versions.Perm others :=
    (List.perm_ext_iff_of_nodup h.nodup h'.nodup).2 fun v => (h.mem_iff v).trans (h'.mem_iff v).symm
  refine hperm.eq_of_pairwise (fun v w _ _ hlt hgt => ?_) h.ordered h'.ordered
  exact absurd hlt (Nat.lt_asymm hgt)

/-- One more text that is a version adds that version, unless it was named before. -/
theorem snoc (h : Selects values versions) (v : Version) :
    Selects (values ++ [v.text]) (if v ∈ versions then versions else versions ++ [v]) := by
  have hkept {w : Version} (hw : w ∈ versions) : (values ++ [v.text]).idxOf w.text = values.idxOf w.text :=
    List.idxOf_append_of_mem ((h.mem_iff w).1 hw)
  have hordered : versions.Pairwise fun u w =>
      (values ++ [v.text]).idxOf u.text < (values ++ [v.text]).idxOf w.text :=
    h.ordered.imp_of_mem fun hu hw hlt => by rwa [hkept hu, hkept hw]
  have hmem (w : Version) : w.text ∈ values ++ [v.text] ↔ w ∈ versions ∨ w = v := by
    rw [List.mem_append, List.mem_singleton, h.mem_iff]
    exact or_congr_right ⟨Version.text_injective, congrArg _⟩
  split
  · rename_i hv
    refine ⟨fun w => ?_, hordered⟩
    rw [hmem]
    exact ⟨.inl, fun hw => hw.elim id fun heq => heq ▸ hv⟩
  · rename_i hv
    refine ⟨fun w => ?_, ?_⟩
    · rw [hmem, List.mem_append, List.mem_singleton]
    · -- a version that is new is named behind all that were read
      refine List.pairwise_append.2 ⟨hordered, List.pairwise_singleton _ _, fun u hu w hw => ?_⟩
      obtain rfl := List.mem_singleton.1 hw
      have hnew : w.text ∉ values := fun hat => hv ((h.mem_iff w).2 hat)
      rw [hkept hu, List.idxOf_append_of_notMem hnew]
      exact Nat.lt_of_lt_of_le (List.idxOf_lt_length_iff.2 ((h.mem_iff u).1 hu)) (Nat.le_add_right _ _)

/-- Versions that are all different are selected by their own texts. -/
theorem ofTexts (h : versions.Nodup) : Selects (versions.map Version.text) versions := by
  have hinj : Function.Injective Version.text := fun v w => Version.text_injective
  refine ⟨fun v => (List.mem_map_of_injective hinj).symm, ?_⟩
  rw [List.pairwise_iff_getElem]
  intro i j hi hj hij
  have hat (k : Nat) (hk : k < versions.length) : (versions.map Version.text).idxOf versions[k].text = k := by
    have hnodup := (List.nodup_map_iff hinj).2 h
    have := hnodup.idxOf_getElem k (by simpa using hk)
    rwa [List.getElem_map] at this
  rwa [hat i hi, hat j hj]

end Selects

/-! ## The loop over the texts -/

/-- Reading supported texts collects what all the texts read select. -/
theorem selectFrom_selects {read rest : List String} {seen : List Version} (h : Selects read seen)
    (hrest : ∀ value ∈ rest, Version.IsSupported value) :
    ∃ versions, selectFrom seen rest = .ok versions ∧ Selects (read ++ rest) versions := by
  -- what was read grows with every step, and what was collected with it
  induction rest generalizing read seen with
  | nil => exact ⟨seen, rfl, by simpa using h⟩
  | cons value rest ih =>
    obtain ⟨v, rfl⟩ := Version.isSupported_iff.1 (hrest value List.mem_cons_self)
    obtain ⟨versions, hversions, hselects⟩ :=
      ih (h.snoc v) fun value hvalue => hrest value (List.mem_cons_of_mem _ hvalue)
    refine ⟨versions, ?_, by simpa using hselects⟩
    rw [selectFrom, Version.parse_text]
    exact hversions

/-- The first text that is no supported version ends the reading. -/
theorem selectFrom_refuses {front rest : List String} {value : String} (seen : List Version)
    (hfront : ∀ value ∈ front, Version.IsSupported value) (hvalue : ¬ Version.IsSupported value) :
    selectFrom seen (front ++ value :: rest) = .error (.unsupportedVersion value Version.supportedList) := by
  induction front generalizing seen with
  | nil => rw [List.nil_append, selectFrom, Version.parse_of_not_isSupported hvalue]
  | cons other front ih =>
    obtain ⟨v, rfl⟩ := Version.isSupported_iff.1 (hfront other List.mem_cons_self)
    rw [List.cons_append, selectFrom, Version.parse_text]
    exact ih _ fun value hvalue => hfront value (List.mem_cons_of_mem _ hvalue)

/-! ## The whole list -/

theorem select_selects {values : List String} (hne : values ≠ [])
    (h : ∀ value ∈ values, Version.IsSupported value) :
    ∃ versions, select values = .ok versions ∧ Selects values versions := by
  obtain ⟨versions, hversions, hselects⟩ := selectFrom_selects .nil h
  refine ⟨versions, ?_, hselects⟩
  rw [select, if_neg (by simpa using hne), hversions]

theorem select_refuses {front rest : List String} {value : String}
    (hfront : ∀ value ∈ front, Version.IsSupported value) (hvalue : ¬ Version.IsSupported value) :
    select (front ++ value :: rest) = .error (.unsupportedVersion value Version.supportedList) := by
  rw [select, if_neg (by simp), selectFrom_refuses [] hfront hvalue]

/-- What is selected is selected again by its own texts. -/
theorem select_texts {versions : List Version} (hne : versions ≠ []) (h : versions.Nodup) :
    select (versions.map Version.text) = .ok versions := by
  have hsupported : ∀ value ∈ versions.map Version.text, Version.IsSupported value := by
    intro value hvalue
    obtain ⟨v, -, rfl⟩ := List.mem_map.1 hvalue
    exact Version.isSupported_text v
  obtain ⟨others, hothers, hselects⟩ := select_selects (by simpa using hne) hsupported
  rw [hothers, hselects.unique (.ofTexts h)]

/-- What is selected from supported texts: every version if there are none. -/
theorem select_supported {values : List String} (h : ∀ value ∈ values, Version.IsSupported value) :
    ∃ versions, select values = .ok versions ∧ versions ≠ [] ∧ versions.Nodup ∧
      if values = [] then versions = Version.all else Selects values versions := by
  by_cases hnil : values = []
  · subst hnil
    exact ⟨Version.all, rfl, by decide, Version.nodup_all, rfl⟩
  · obtain ⟨versions, hversions, hselects⟩ := select_selects hnil h
    refine ⟨versions, hversions, ?_, hselects.nodup, by rwa [if_neg hnil]⟩
    rintro rfl
    obtain ⟨value, hvalue⟩ := List.exists_mem_of_ne_nil values hnil
    obtain ⟨v, rfl⟩ := Version.isSupported_iff.1 (h value hvalue)
    exact absurd ((hselects.mem_iff v).2 hvalue) (by simp)

end Batch

/-- Main statement: a request for several versions is refused for the first text that is no supported version.
Without one it is accepted, with its versions all different: the selected ones in the order in which they are
first named, or all in ascending order if none is named; and the request with these versions named gives the
same. -/
theorem RawBatch.validate_selects (b : RawBatch) (cwd : Path) :
    match b.versions.find? fun value => ¬ Version.IsSupported value with
    | some value => b.validate cwd = .error (.unsupportedVersion value "2.78 2.79 2.80 2.81 2.82")
    | none => ∃ versions : List Version,
        b.validate cwd =
          .ok ⟨versions, cwd.join b.sourceDir, cwd.join b.blenderDir, !b.skipAggregate, b.quiet⟩ ∧
        versions.Nodup ∧
        (if b.versions = [] then versions.map Version.text = ["2.78", "2.79", "2.80", "2.81", "2.82"]
          else Batch.Selects b.versions versions) ∧
        RawBatch.validate { b with versions := versions.map Version.text } cwd = b.validate cwd := by
  split
  · rename_i value hfirst
    obtain ⟨hvalue, front, rest, hversions, hfront⟩ := List.find?_eq_some_iff_append.1 hfirst
    have hrefused : Batch.select b.versions = .error (.unsupportedVersion value Version.supportedList) := by
      rw [hversions]
      exact Batch.select_refuses (by simpa using hfront) (by simpa using hvalue)
    rw [validate, hrefused]
    rfl
  · rename_i hnone
    obtain ⟨versions, hselect, hne, hnodup, hversions⟩ :=
      Batch.select_supported (by simpa using List.find?_eq_none.1 hnone)
    have hagain := Batch.select_texts hne hnodup
    refine ⟨versions, ?_, hnodup, ?_, ?_⟩
    · rw [validate, hselect]
      rfl
    · split at hversions
      · rename_i hnil
        rw [if_pos hnil, hversions]
        rfl
      · rename_i hnil
        rwa [if_neg hnil]
    · rw [validate, validate, hagain, hselect]

example : Batch.select ["2.82", "2.79", "2.82", "2.78"] = .ok [.v282, .v279, .v278] := rfl

end StubRelease
