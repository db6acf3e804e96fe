/-
# StubRelease.Mode -- the two ways to package a build

`release` builds distributions in a throwaway directory, `develop` installs the package in place. Main
statement: reading a mode accepts exactly the two written forms.
-/
import StubRelease.Failure

namespace StubRelease

/-- How the generated modules become a package. -/
inductive Mode where
  | develop
  | release
deriving DecidableEq, Repr

namespace Mode

/-- The mode as it is written on a command line. -/
def text : Mode → String
  | develop => "develop"
  | release => "release"

/-- Reads a mode. -/
def parse (value : String) : Except Failure Mode :=
  if value = "develop" then .ok develop
  else if value = "release" then .ok release
  else .error (.unsupportedMode value)

theorem parse_text (m : Mode) : parse m.text = .ok m := by cases m <;> rfl

theorem parse_eq_ok_iff {value : String} {m : Mode} : parse value = .ok m ↔ value = m.text := by
  constructor
  · intro h
    unfold parse at h
    split at h
    · simp_all [← Except.ok.inj h, text]
    · split at h
      · simp_all [← Except.ok.inj h, text]
      · simp at h
  · rintro rfl
    exact parse_text m

end Mode

end StubRelease
