/-
# StubRelease.Proofs.ByteOrder -- texts are ordered as their bytes are

Texts are compared by their characters and byte strings by their bytes. The UTF-8 form of a character is a lead
byte and up to three bytes with six bits each, the highest bits first, so of two characters the later one has
the greater byte where the two forms part (`form_parts`). Main statement: one text is before another
exactly if its bytes are before the other's (`ofString_lt_iff`).
-/
import Mathlib.Data.String.Basic
import StubRelease.Proofs.Tree.Spelling

namespace StubRelease.Bytes

/-! ## Where two byte strings part -/

/-- Two byte strings share a beginning, and the first one goes on with the smaller byte. -/
def Parts (a b : Bytes) : Prop := ∃ front x y rest rest', a = front ++ x :: rest ∧ b = front ++ y :: rest' ∧ x < y

namespace Parts

variable {a b : Bytes}

theorem cons {x y : UInt8} (h : x < y) (rest rest' : Bytes) : Parts (x :: rest) (y :: rest') :=
  ⟨[], x, y, rest, rest', rfl, rfl, h⟩

/-- What has parted stays apart, whatever follows. -/
theorem append (h : Parts a b) (more more' : Bytes) : Parts (a ++ more) (b ++ more') := by
  obtain ⟨front, x, y, rest, rest', rfl, rfl, hlt⟩ := h
  refine ⟨front, x, y, rest ++ more, rest' ++ more', ?_, ?_, hlt⟩ <;> simp

theorem lt (h : Parts a b) : a < b := by
  obtain ⟨front, x, y, rest, rest', rfl, rfl, hlt⟩ := h
  induction front with
  | nil => exact List.Lex.rel hlt
  | cons z front ih => exact List.Lex.cons ih

end Parts

/-! ## Characters -/

/-- Numbers below 256 are ordered as the bytes that hold them. -/
theorem ofNat_lt_ofNat {m n : Nat} (h : m < n) (hn : n < 256) : UInt8.ofNat m < UInt8.ofNat n := by
  rw [UInt8.lt_iff_toNat_lt, UInt8.toNat_ofNat', UInt8.toNat_ofNat']
  omega

/-- The byte that holds the lowest six bits of a number, behind the form of the bits above. -/
def six (n : Nat) : UInt8 := UInt8.ofNat (n % 64 + 0x80)

/-- A form of numbers that parts where the numbers differ still does so with six more bits behind it. -/
theorem Parts.snoc {form : Nat → Bytes} {m n : Nat} (hform : m / 64 < n / 64 → Parts (form (m / 64)) (form (n / 64)))
    (h : m < n) : Parts (form (m / 64) ++ [six m]) (form (n / 64) ++ [six n]) := by
  by_cases hhigh : m / 64 < n / 64
  · exact (hform hhigh).append _ _
  · -- the bits above agree, so the six lowest ones decide
    have hsame : m / 64 = n / 64 := by omega
    refine ⟨form (m / 64), six m, six n, [], [], rfl, by rw [hsame], ?_⟩
    apply ofNat_lt_ofNat <;> omega

/-- A lead byte: some of the highest bits behind a mark. -/
def lead (mark n : Nat) : Bytes := [UInt8.ofNat (n + mark)]

theorem lead_parts {mark m n : Nat} (h : m < n) (hn : n + mark < 256) : Parts (lead mark m) (lead mark n) :=
  .cons (ofNat_lt_ofNat (by omega) hn) [] []

/-- The UTF-8 form of the character with a number. -/
def form (n : Nat) : Bytes :=
  if n < 0x80 then lead 0 n
  else if n < 0x800 then lead 0xC0 (n / 64) ++ [six n]
  else if n < 0x10000 then lead 0xE0 (n / 64 / 64) ++ [six (n / 64)] ++ [six n]
  else lead 0xF0 (n / 64 / 64 / 64) ++ [six (n / 64 / 64)] ++ [six (n / 64)] ++ [six n]

theorem toNat_lt (c : Char) : c.toNat < 0x110000 := by
  have hvalid := c.valid
  simp only [UInt32.isValidChar, Nat.isValidChar] at hvalid
  show c.val.toNat < _
  omega

theorem utf8EncodeChar_eq (c : Char) : String.utf8EncodeChar c = form c.toNat := by
  have hmax := toNat_lt c
  unfold form lead six String.utf8EncodeChar
  change c.val.toNat < _ at hmax
  rw [show c.toNat = c.val.toNat from rfl]
  dsimp only
  generalize c.val.toNat = n at hmax
  by_cases hone : n < 0x80
  · rw [if_pos (by omega), if_pos hone]
    rfl
  rw [if_neg (by omega), if_neg hone]
  by_cases htwo : n < 0x800
  · rw [if_pos (by omega), if_pos htwo, Nat.mod_eq_of_lt (by omega)]
    rfl
  rw [if_neg (by omega), if_neg htwo, Nat.div_div_eq_div_mul]
  by_cases hthree : n < 0x10000
  · rw [if_pos (by omega), if_pos hthree, Nat.mod_eq_of_lt (by omega)]
    rfl
  rw [if_neg (by omega), if_neg hthree, Nat.mod_eq_of_lt (by omega), Nat.div_div_eq_div_mul]
  rfl

/-- Of two characters the later one has the greater byte where their forms part. -/
theorem form_parts {m n : Nat} (h : m < n) (hn : n < 0x110000) : Parts (form m) (form n) := by
  have hlead {mark a b : Nat} (hb : b + mark < 256) (hab : a < b) : Parts (lead mark a) (lead mark b) :=
    lead_parts hab hb
  unfold form
  split_ifs
  any_goals omega
  · exact hlead (by omega) h
  · exact .cons (ofNat_lt_ofNat (by omega) (by omega)) _ _
  · exact .cons (ofNat_lt_ofNat (by omega) (by omega)) _ _
  · exact .cons (ofNat_lt_ofNat (by omega) (by omega)) _ _
  · exact @Parts.snoc (lead 0xC0) _ _ (hlead (by omega)) h
  · exact .cons (ofNat_lt_ofNat (by omega) (by omega)) _ _
  · exact .cons (ofNat_lt_ofNat (by omega) (by omega)) _ _
  · exact @Parts.snoc (fun k => lead 0xE0 (k / 64) ++ [six k]) _ _ (@Parts.snoc (lead 0xE0) _ _ (hlead (by omega))) h
  · exact .cons (ofNat_lt_ofNat (by omega) (by omega)) _ _
  · exact @Parts.snoc (fun k => lead 0xF0 (k / 64 / 64) ++ [six (k / 64)] ++ [six k]) _ _
      (@Parts.snoc (fun k => lead 0xF0 (k / 64) ++ [six k]) _ _ (@Parts.snoc (lead 0xF0) _ _ (hlead (by omega)))) h

/-- The form of a character outside ASCII has no byte of ASCII in it. -/
theorem le_of_mem_form {n : Nat} (hlow : 0x80 ≤ n) (hn : n < 0x110000) : ∀ b ∈ form n, 0x80 ≤ b.toNat := by
  have hbyte {k : Nat} (hlow : 0x80 ≤ k) (hk : k < 256) : 0x80 ≤ (UInt8.ofNat k).toNat := by
    rw [UInt8.toNat_ofNat']
    omega
  have hsix (k : Nat) : 0x80 ≤ (six k).toNat := hbyte (by omega) (by omega)
  unfold form lead
  rw [if_neg (by omega)]
  split_ifs <;> simp only [List.forall_mem_append, List.forall_mem_singleton]
  · exact ⟨hbyte (by omega) (by omega), hsix _⟩
  · exact ⟨⟨hbyte (by omega) (by omega), hsix _⟩, hsix _⟩
  · exact ⟨⟨⟨hbyte (by omega) (by omega), hsix _⟩, hsix _⟩, hsix _⟩

/-- A byte of ASCII stands for the character with its number, and is part of no other. -/
theorem eq_of_mem_form {n : Nat} (hn : n < 0x110000) {b : UInt8} (hb : b ∈ form n) (hascii : b.toNat < 0x80) :
    n = b.toNat := by
  by_cases hlow : n < 0x80
  · rw [form, if_pos hlow, lead, List.mem_singleton] at hb
    rw [hb, UInt8.toNat_ofNat']
    omega
  · have := le_of_mem_form (by omega) hn b hb
    omega

/-! ## Texts -/

theorem ofString_eq_flatMap (s : String) : ofString s = s.toList.flatMap String.utf8EncodeChar := by
  obtain ⟨cs, rfl⟩ : ∃ cs, s = String.ofList cs := ⟨s.toList, by simp⟩
  rw [String.toList_ofList]
  exact List.toList_data_toByteArray

/-- A character of ASCII stands in a text where its byte stands among the bytes. -/
theorem mem_ofString_iff {c : Char} (hascii : c.toNat < 0x80) {s : String} : ofChar c ∈ ofString s ↔ c ∈ s.toList := by
  have hbyte : (ofChar c).toNat = c.toNat := by
    show c.toNat % 256 = c.toNat
    omega
  rw [ofString_eq_flatMap, List.mem_flatMap]
  constructor
  · rintro ⟨d, hd, hmem⟩
    rw [utf8EncodeChar_eq] at hmem
    have hsame : d.toNat = c.toNat := (eq_of_mem_form (toNat_lt d) hmem (by omega)).trans hbyte
    obtain rfl : d = c := Char.toNat_inj.1 hsame
    exact hd
  · intro hmem
    refine ⟨c, hmem, ?_⟩
    rw [utf8EncodeChar_eq, form, if_pos hascii]
    exact List.mem_singleton_self _

/-- A text before another one has bytes before the other's. -/
theorem flatMap_lt {cs ds : List Char} (h : cs < ds) :
    cs.flatMap String.utf8EncodeChar < ds.flatMap String.utf8EncodeChar := by
  -- on the first difference, where the bytes of the smaller character come first
  induction h with
  | nil =>
    rename_i d ds
    obtain ⟨x, rest, hform⟩ := List.exists_cons_of_ne_nil (String.utf8EncodeChar_ne_nil (c := d))
    rw [List.flatMap_cons, hform]
    exact .nil
  | rel hlt =>
    rename_i c cs d ds
    rw [List.flatMap_cons, List.flatMap_cons, utf8EncodeChar_eq, utf8EncodeChar_eq]
    exact ((form_parts hlt (toNat_lt d)).append _ _).lt
  | cons _ ih =>
    rename_i c cs ds
    rw [List.flatMap_cons, List.flatMap_cons]
    exact List.append_left_lt ih

theorem ofString_lt_ofString {s t : String} (h : s < t) : ofString s < ofString t := by
  rw [ofString_eq_flatMap, ofString_eq_flatMap]
  exact flatMap_lt h

/-- Main statement: texts are ordered as their bytes are. -/
theorem ofString_lt_iff {s t : String} : ofString s < ofString t ↔ s < t := by
  refine ⟨fun h => ?_, ofString_lt_ofString⟩
  rcases lt_trichotomy s t with hlt | rfl | hgt
  · exact hlt
  · exact absurd h (List.lt_irrefl _)
  · exact absurd h (List.lt_asymm (ofString_lt_ofString hgt))

theorem ofString_le_iff {s t : String} : ofString s ≤ ofString t ↔ s ≤ t := by
  rw [← List.not_lt, ofString_lt_iff, not_lt]

end StubRelease.Bytes
