/-
# StubRelease.Proofs.Override -- what the override of the label decides

The variable that overrides the label holds any bytes. `Label.Decides` has a rule for each kind of value:
none, the empty one, a text in the alphabet of labels, a text with a character outside it, and bytes that are no
text. Main statement: the label a process starts with is the one that these rules give
(`ofEnvironment_eq_iff`). Bytes that are no text are not refused, but passed over for the date
(`ill_formed_override_is_passed_over`).
-/
import StubRelease.Proofs.CommandLine
import StubRelease.Proofs.Layout

namespace StubRelease

namespace Label

/-! ## The alphabet -/

/-- The characters of labels. -/
def alphabet : List Char := "ABCDEFGHIJKLMNOPQRSTUVWXYZabcdefghijklmnopqrstuvwxyz0123456789-._".toList

/-- The characters that may stand in a label, for all of ASCII at once. -/
theorem mem_alphabet_of_lt : ∀ n < 128, isLabelChar (Char.ofNat n) = true → Char.ofNat n ∈ alphabet := by
  decide +kernel

theorem isLabelChar_iff {c : Char} : isLabelChar c = true ↔ c ∈ alphabet := by
  constructor
  · intro h
    have hmem := mem_alphabet_of_lt c.toNat (lt_of_isLabelChar h)
    rw [Char.ofNat_toNat] at hmem
    exact hmem h
  · intro h
    have hall : alphabet.all isLabelChar = true := by decide +kernel
    exact List.all_eq_true.1 hall c h

/-! ## Reading a label -/

/-- A text in the alphabet is the label it is read as. -/
theorem parse_of_alphabet {text : String} (hne : text ≠ "") (h : ∀ c ∈ text.toList, c ∈ alphabet) :
    ∃ l : Label, l.text = text ∧ parse text = .ok l := by
  have hall : text.toList.all isLabelChar = true := List.all_eq_true.2 fun c hc => isLabelChar_iff.2 (h c hc)
  exact ⟨⟨text, hne, hall⟩, rfl, by rw [parse, dif_neg hne, dif_pos hall]⟩

theorem ne_empty_of_toList {text : String} {front rest : List Char} {c : Char}
    (htext : text.toList = front ++ c :: rest) : text ≠ "" := by
  rintro rfl
  simp at htext

/-- The first character outside the alphabet refuses a text. -/
theorem parse_of_bad {text : String} {front rest : List Char} {bad : Char}
    (htext : text.toList = front ++ bad :: rest) (hfront : ∀ c ∈ front, c ∈ alphabet) (hbad : bad ∉ alphabet) :
    parse text = .error (.invalidLabel text (characterReason bad)) := by
  have hne := ne_empty_of_toList htext
  have hnot : ¬ text.toList.all isLabelChar = true := fun hall =>
    hbad (isLabelChar_iff.1 (List.all_eq_true.1 hall bad (by simp [htext])))
  have hfirst : text.toList.find? (fun c => !isLabelChar c) = some bad := by
    have houtside : isLabelChar bad = false := by rwa [← Bool.not_eq_true, isLabelChar_iff]
    refine List.find?_eq_some_iff_append.2 ⟨by rw [houtside]; rfl, front, rest, htext, fun c hc => ?_⟩
    rw [isLabelChar_iff.2 (hfront c hc)]
    rfl
  rw [parse, dif_neg hne, dif_neg hnot, hfirst]

/-! ## The rules -/

/-- What a value of the override variable decides at an instant. -/
inductive Decides (now : Instant) : Option Bytes → Except Failure Label → Prop
  | unset : Decides now none (.ok (ofInstant now))
  | empty : Decides now (some []) (.ok (ofInstant now))
  | honoured {text : String} {l : Label} (hne : text ≠ "") (halphabet : ∀ c ∈ text.toList, c ∈ alphabet)
      (hl : l.text = text) : Decides now (some (Bytes.ofString text)) (.ok l)
  | refused {text : String} {front rest : List Char} {bad : Char} (htext : text.toList = front ++ bad :: rest)
      (hfront : ∀ c ∈ front, c ∈ alphabet) (hbad : bad ∉ alphabet) :
      Decides now (some (Bytes.ofString text))
        (.error (.invalidLabel text ("invalid character '" ++ bad.toString ++ "'")))
  | noText {value : Bytes} (h : ∀ text, value ≠ Bytes.ofString text) :
      Decides now (some value) (.ok (ofInstant now))

theorem ofEnvironment_empty (now : Instant) : ofEnvironment (some []) now = .ok (ofInstant now) := by
  rw [ofEnvironment, Option.bind_some, ← Bytes.ofString_empty, Bytes.toString?_ofString, resolve]
  exact if_pos rfl

/-- A text as an override. -/
theorem ofEnvironment_text {text : String} (hne : text ≠ "") (now : Instant) :
    ofEnvironment (some (Bytes.ofString text)) now = parse text := by
  rw [ofEnvironment, Option.bind_some, Bytes.toString?_ofString, resolve]
  exact if_neg hne

/-- Every value has a rule, and what the rule says is the label a process starts with. -/
theorem decides_ofEnvironment (value : Option Bytes) (now : Instant) :
    Decides now value (ofEnvironment value now) := by
  cases value with
  | none => exact .unset
  | some bytes =>
    cases hread : Bytes.toString? bytes with
    | none =>
      rw [ofEnvironment, Option.bind_some, hread, resolve]
      refine .noText ?_
      rintro text rfl
      rw [Bytes.toString?_ofString] at hread
      cases hread
    | some text =>
      obtain rfl := Bytes.toString?_eq_some_iff.1 hread
      by_cases hempty : text = ""
      · rw [hempty, Bytes.ofString_empty, ofEnvironment_empty]
        exact .empty
      rw [ofEnvironment_text hempty]
      by_cases hall : ∀ c ∈ text.toList, c ∈ alphabet
      · obtain ⟨l, hl, hparse⟩ := parse_of_alphabet hempty hall
        rw [hparse]
        exact .honoured hempty hall hl
      · -- the first character outside is also the one that is named
        obtain ⟨bad, hfirst⟩ : ∃ bad, text.toList.find? (fun c => decide (c ∉ alphabet)) = some bad := by
          rw [← Option.isSome_iff_exists, List.find?_isSome]
          simpa using hall
        obtain ⟨hbad, front, rest, htext, hfront⟩ := List.find?_eq_some_iff_append.1 hfirst
        have hfront' : ∀ c ∈ front, c ∈ alphabet := by simpa using hfront
        rw [parse_of_bad htext hfront' (by simpa using hbad)]
        exact .refused htext hfront' (by simpa using hbad)

/-- Main statement: the label a process starts with is the one its override decides. -/
theorem ofEnvironment_eq_iff {value : Option Bytes} {now : Instant} {result : Except Failure Label} :
    ofEnvironment value now = result ↔ Decides now value result := by
  constructor
  · rintro rfl
    exact decides_ofEnvironment value now
  · intro h
    cases h with
    | unset => rfl
    | empty => exact ofEnvironment_empty now
    | honoured hne halphabet hl =>
      rw [ofEnvironment_text hne]
      exact parse_eq_ok_iff.2 hl.symm
    | refused htext hfront hbad =>
      rw [ofEnvironment_text (ne_empty_of_toList htext)]
      exact parse_of_bad htext hfront hbad
    | noText h =>
      rename_i value
      have hread : Bytes.toString? value = none := by
        cases htext : Bytes.toString? value with
        | none => rfl
        | some text => exact absurd (Bytes.toString?_eq_some_iff.1 htext) (h text)
      rw [ofEnvironment, Option.bind_some, hread, resolve]

/-- The bytes `2020/` and one that ends no character: a value that is set, not empty and no label. -/
def illFormedOverride : Bytes := [0x32, 0x30, 0x32, 0x30, 0x2F, 0xFF]

/-- A value that is no text gives the date's label, although it is set and holds a character that no label
has. -/
theorem ill_formed_override_is_passed_over :
    illFormedOverride = Bytes.ofString "2020/" ++ [0xFF] ∧ '/' ∉ alphabet ∧
      Bytes.toString? illFormedOverride = none ∧
      ofEnvironment (some illFormedOverride) ⟨0⟩ = .ok (ofInstant ⟨0⟩) := by
  have hread : Bytes.toString? illFormedOverride = none := by decide +kernel
  refine ⟨by decide +kernel, by decide +kernel, hread, ?_⟩
  rw [ofEnvironment, Option.bind_some, hread, resolve]

end Label

end StubRelease
