/-
# StubRelease.Bytes -- byte strings and the text they may hold

File names, command-line words and file contents are byte strings; messages are text. This module
holds the passage between the two: every text has one UTF-8 form (`ofString`), a byte string is read
back only when it is well formed (`toString?`), and a message shows an ill-formed one with a
replacement character for each maximal ill-formed part (`lossy`).
-/

namespace StubRelease

/-- A byte string. -/
abbrev Bytes := List UInt8

namespace Bytes

/-- The UTF-8 form of a text. -/
def ofString (s : String) : Bytes := s.toByteArray.data.toList

/-- The byte of an ASCII character. -/
def ofChar (c : Char) : UInt8 := c.toNat.toUInt8

/-- Reads a byte string as UTF-8; an ill-formed one is no text. -/
def toString? (bs : Bytes) : Option String := String.fromUTF8? ⟨bs.toArray⟩

@[simp] theorem ofString_append (s t : String) : ofString (s ++ t) = ofString s ++ ofString t := by
  simp [ofString, String.toByteArray_append, ByteArray.data_append]

theorem ofString_injective {s t : String} (h : ofString s = ofString t) : s = t := by
  apply String.toByteArray_inj.1
  cases hs : s.toByteArray
  cases ht : t.toByteArray
  simp_all [ofString]

theorem ofString_of_toString? {bs : Bytes} {text : String} (h : toString? bs = some text) :
    ofString text = bs := by
  rw [toString?, String.fromUTF8?] at h
  split at h
  · cases h
    rfl
  · cases h

theorem toString?_ofString (text : String) : toString? (ofString text) = some text := by
  rw [toString?, ofString, String.fromUTF8?]
  simp only [Array.toArray_toList, Option.dite_none_right_eq_some]
  exact ⟨text.isValidUTF8, rfl⟩

/-! ## Showing ill-formed text -/

/-- The ranges the bytes after a lead byte must lie in; `none` for a byte that starts no character.
The narrowed second ranges rule out overlong forms, surrogates and values past U+10FFFF. -/
def continuation (lead : UInt8) : Option (List (UInt8 × UInt8)) :=
  let any : UInt8 × UInt8 := (0x80, 0xBF)
  if lead < 0x80 then some []
  else if lead < 0xC2 then none
  else if lead < 0xE0 then some [any]
  else if lead = 0xE0 then some [(0xA0, 0xBF), any]
  else if lead = 0xED then some [(0x80, 0x9F), any]
  else if lead < 0xF0 then some [any, any]
  else if lead = 0xF0 then some [(0x90, 0xBF), any, any]
  else if lead < 0xF4 then some [any, any, any]
  else if lead = 0xF4 then some [(0x80, 0x8F), any, any]
  else none

/-- The bits a lead byte contributes to its character. -/
def leadBits (lead : UInt8) : Nat :=
  if lead < 0x80 then lead.toNat
  else if lead < 0xE0 then lead.toNat % 32
  else if lead < 0xF0 then lead.toNat % 16
  else lead.toNat % 8

/-- A character under construction: the ranges still to be matched and the bits read so far. -/
structure Unfinished where
  pending : List (UInt8 × UInt8)
  bits : Nat

/-- What a byte in lead position yields: characters that are complete, and the one it starts. -/
def startChar (b : UInt8) : List Char × Unfinished :=
  match continuation b with
  | none => (['\uFFFD'], ⟨[], 0⟩)
  | some [] => ([Char.ofNat b.toNat], ⟨[], 0⟩)
  | some ranges => ([], ⟨ranges, leadBits b⟩)

/-- Decodes with one replacement character for each maximal part that starts no character. -/
def lossyFrom : Unfinished → Bytes → List Char
  | ⟨[], _⟩, [] => []
  | ⟨_ :: _, _⟩, [] => ['\uFFFD']
  | ⟨[], _⟩, b :: rest =>
    let (done, next) := startChar b
    done ++ lossyFrom next rest
  | ⟨(lo, hi) :: ranges, bits⟩, b :: rest =>
    if lo ≤ b ∧ b ≤ hi then
      let value := bits * 64 + b.toNat % 64
      match ranges with
      | [] => Char.ofNat value :: lossyFrom ⟨[], 0⟩ rest
      | _ :: _ => lossyFrom ⟨ranges, value⟩ rest
    else
      let (done, next) := startChar b
      '\uFFFD' :: (done ++ lossyFrom next rest)

/-- The text a message shows for a byte string. -/
def lossy (bs : Bytes) : String := String.ofList (lossyFrom ⟨[], 0⟩ bs)

end Bytes

end StubRelease
