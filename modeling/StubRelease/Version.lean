/-
# StubRelease.Version -- the versions that can be released

Modules can only be generated for versions whose source tag is known. The table below is the whole
supported set, in ascending order; every other text is refused with the list of what is supported. Main
statement: reading a version accepts exactly the texts of the table.
-/
import StubRelease.Failure

namespace StubRelease

/-- A supported version. -/
inductive Version where
  | v278
  | v279
  | v280
  | v281
  | v282
deriving DecidableEq, Repr

namespace Version

/-- Every supported version, ascending. -/
def all : List Version := [v278, v279, v280, v281, v282]

/-- The version as it is written. -/
def text : Version → String
  | v278 => "2.78"
  | v279 => "2.79"
  | v280 => "2.80"
  | v281 => "2.81"
  | v282 => "2.82"

/-- The tag of the sources the generator checks out. -/
def sourceTag : Version → String
  | v278 => "v2.78c"
  | v279 => "v2.79b"
  | v280 => "v2.80"
  | v281 => "v2.81a"
  | v282 => "v2.82a"

/-- The supported versions as one line of text. -/
def supportedList : String := " ".intercalate (all.map text)

/-- Reads a version. -/
def parse (value : String) : Except Failure Version :=
  match all.find? (fun v => v.text == value) with
  | some v => .ok v
  | none => .error (.unsupportedVersion value supportedList)

theorem mem_all (v : Version) : v ∈ all := by cases v <;> decide

theorem text_injective {v w : Version} (h : v.text = w.text) : v = w := by
  revert h; cases v <;> cases w <;> decide

theorem parse_text (v : Version) : parse v.text = .ok v := by cases v <;> rfl

theorem parse_eq_ok_iff {value : String} {v : Version} : parse value = .ok v ↔ value = v.text := by
  constructor
  · intro h
    unfold parse at h
    split at h
    · rename_i w hw
      have htext := List.find?_some hw
      rw [← Except.ok.inj h]
      exact (beq_iff_eq.1 htext).symm
    · simp at h
  · rintro rfl
    exact parse_text v

theorem parse_eq_error_of_forall_ne {value : String} (h : ∀ v : Version, value ≠ v.text) :
    parse value = .error (.unsupportedVersion value supportedList) := by
  unfold parse
  split
  · rename_i w hw
    have htext := List.find?_some hw
    exact absurd (beq_iff_eq.1 htext).symm (h w)
  · rfl

end Version

end StubRelease
