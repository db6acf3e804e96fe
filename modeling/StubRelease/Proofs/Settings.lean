/-
# StubRelease.Proofs.Settings -- what a document decides as a configuration

A document is seen as its top-level table, in which no key stands twice. An entry is allowed if its key is one of
the five settings and its value is a text, and `Objection` has a rule for each way in which it is not. The least
of the bad keys decides the failure, so what a document says does not depend on the order in which it says it.
Main statement: a document is read as `ReadsAs` says, and in no other way (`parse_reads`).
-/
import StubRelease.Config
import StubRelease.Proofs.ByteOrder
import StubRelease.Proofs.Keys

namespace StubRelease

/-! ## Values -/

namespace Toml.Value

/-- The text of a value that is one. -/
def text? : Value → Option String
  | string text => some text
  | _ => none

theorem text?_eq_some {v : Value} {text : String} : v.text? = some text ↔ v = .string text := by
  cases v <;> simp [text?]

/-- The kind of a value, as messages name it. -/
def kind : Value → String
  | string _ => "string"
  | integer _ => "integer"
  | real _ _ | infinite _ | notANumber => "floating point"
  | boolean _ => "boolean"
  | array _ | tables _ _ => "sequence"
  | table _ _ | moment _ => "map"

theorem describeReal_kind (text : String) : ∃ more, describeReal text = "floating point" ++ more := by
  have hname : "floating point `" = "floating point" ++ " `" := by decide +kernel
  refine ⟨" `" ++ text ++ "`", ?_⟩
  calc describeReal text = "floating point" ++ " `" ++ text ++ "`" := congrArg (· ++ text ++ "`") hname
    _ = "floating point" ++ (" `" ++ text ++ "`") := by simp only [String.append_assoc]

/-- A value whose numbers have machine forms has a name, and the name begins with the kind. -/
theorem describe_kind {v : Value} (h : v.fits = true) : ∃ more, v.describe = some (v.kind ++ more) := by
  cases v with
  | string text => exact ⟨" \"" ++ text ++ "\"", by simp [describe, kind, ← String.append_assoc]⟩
  | integer n =>
    obtain ⟨hlow, hhigh⟩ : -(Int.pow 2 63) ≤ n ∧ n < Int.pow 2 63 := by simpa [fits] using h
    have hname : describeInteger n = some ("integer `" ++ toString n ++ "`") :=
      if_pos ⟨hlow, Int.lt_trans hhigh (by decide)⟩
    exact ⟨" `" ++ toString n ++ "`", by simp [describe, hname, kind, ← String.append_assoc]⟩
  | real negative d =>
    obtain ⟨x, hx⟩ : ∃ x, Floating.nearest? .double d = some x := Option.isSome_iff_exists.1 (by simpa [fits] using h)
    obtain ⟨more, hmore⟩ := describeReal_kind (signed negative (String.ofList x.shortest.positional))
    exact ⟨more, by rw [describe, hx, Option.map_some, hmore, kind]⟩
  | infinite negative =>
    obtain ⟨more, hmore⟩ := describeReal_kind (signed negative "inf")
    exact ⟨more, by rw [describe, hmore, kind]⟩
  | notANumber =>
    obtain ⟨more, hmore⟩ := describeReal_kind "NaN"
    exact ⟨more, by rw [describe, hmore, kind]⟩
  | boolean b =>
    exact ⟨" `" ++ (if b then "true" else "false") ++ "`", by simp [describe, kind, ← String.append_assoc]⟩
  | array _ => exact ⟨"", by simp [describe, kind]⟩
  | tables _ _ => exact ⟨"", by simp [describe, kind]⟩
  | table _ _ => exact ⟨"", by simp [describe, kind]⟩
  | moment _ => exact ⟨"", by simp [describe, kind]⟩

theorem fits_of_mem {entries : Entries} (h : entriesFit entries = true) {entry : String × Value}
    (hmem : entry ∈ entries) : entry.2.fits = true := by
  induction entries with
  | nil => cases hmem
  | cons first rest ih =>
    obtain ⟨hfirst, hrest⟩ : first.2.fits = true ∧ entriesFit rest = true := by
      simpa [entriesFit] using h
    rcases List.mem_cons.1 hmem with rfl | hmem
    · exact hfirst
    · exact ih hrest hmem

end Toml.Value

namespace Config

/-! ## Entries -/

/-- The keys of a configuration. -/
def keys : List String := ["script_dir", "readme", "shell", "python", "pandoc"]

/-- The keys of paths; the others are those of names. -/
def pathKeys : List String := ["script_dir", "readme"]

/-- An entry that may stand in a configuration. -/
def Allowed (entry : String × Toml.Value) : Prop := entry.1 ∈ keys ∧ ∃ text, entry.2 = .string text

/-- What is wrong with an entry that may not. -/
inductive Objection : String × Toml.Value → String → Prop
  | unknownKey {key : String} {v : Toml.Value} (hkey : key ∉ keys) :
      Objection (key, v) ("unknown field `" ++ key
        ++ "`, expected one of `script_dir`, `readme`, `shell`, `python`, `pandoc`")
  | wrongType {key : String} {v : Toml.Value} {found : String} (hkey : key ∈ keys) (htext : v.text? = none)
      (hfound : v.describe = some found) :
      Objection (key, v) ("invalid type: " ++ found ++ ", expected "
        ++ if key ∈ pathKeys then "a UTF-8 path string" else "a string")
  /-- A number that is too large to be held at all is no number of the format. -/
  | nameless {key : String} {v : Toml.Value} (hkey : key ∈ keys) (htext : v.text? = none)
      (hnone : v.describe = none) : Objection (key, v) malformedReason

namespace Setting

theorem ofKey?_key (s : Setting) : ofKey? s.key = some s := by cases s <;> rfl

theorem key_of_ofKey? {key : String} {s : Setting} (h : ofKey? key = some s) : s.key = key := by
  have := List.find?_some h
  simpa using this

theorem mem_all (s : Setting) : s ∈ all := by cases s <;> decide

theorem mem_keys_iff {key : String} : key ∈ keys ↔ ∃ s : Setting, s.key = key := by
  rw [show keys = all.map Setting.key from rfl, List.mem_map]
  exact ⟨fun ⟨s, _, hs⟩ => ⟨s, hs⟩, fun ⟨s, hs⟩ => ⟨s, mem_all s, hs⟩⟩

theorem ofKey?_eq_none {key : String} (h : key ∉ keys) : ofKey? key = none := by
  cases hs : ofKey? key with
  | none => rfl
  | some s => exact absurd (mem_keys_iff.2 ⟨s, key_of_ofKey? hs⟩) h

theorem expected_eq (s : Setting) :
    s.expected = if s.key ∈ pathKeys then "a UTF-8 path string" else "a string" := by
  cases s <;> rfl

end Setting

/-- What is found wrong with the value of a setting. -/
theorem defect?_of_key (s : Setting) (v : Toml.Value) : defect? (s.key, v) =
    if v.text?.isSome then none else some ((v.describe.map (wrongTypeReason s)).getD malformedReason) := by
  rw [defect?, Setting.ofKey?_key]
  cases v with
  | string text => rfl
  | _ =>
    rw [if_neg (by simp [Toml.Value.text?])]
    dsimp only
    split <;> rename_i hfound <;> rw [hfound] <;> rfl

theorem defect?_of_unknown {key : String} (v : Toml.Value) (h : key ∉ keys) :
    defect? (key, v) = some (unknownKeyReason key) := by
  rw [defect?, Setting.ofKey?_eq_none h]

theorem allowed_iff {key : String} {v : Toml.Value} : Allowed (key, v) ↔ key ∈ keys ∧ v.text?.isSome = true := by
  rw [Allowed, Option.isSome_iff_exists]
  simp only [Toml.Value.text?_eq_some]

theorem defect?_eq_none_iff {entry : String × Toml.Value} : defect? entry = none ↔ Allowed entry := by
  obtain ⟨key, v⟩ := entry
  rw [allowed_iff]
  by_cases hkey : key ∈ keys
  · obtain ⟨s, rfl⟩ := Setting.mem_keys_iff.1 hkey
    rw [defect?_of_key]
    split
    · rename_i htext
      exact ⟨fun _ => ⟨hkey, htext⟩, fun _ => rfl⟩
    · rename_i htext
      exact ⟨fun h => (by cases h), fun h => absurd h.2 htext⟩
  · rw [defect?_of_unknown v hkey]
    exact ⟨fun h => (by cases h), fun h => absurd h.1 hkey⟩

theorem unknownKeyReason_eq (key : String) : unknownKeyReason key =
    "unknown field `" ++ key ++ "`, expected one of `script_dir`, `readme`, `shell`, `python`, `pandoc`" := by
  have hlist : "`, expected one of " ++ ", ".intercalate (Setting.all.map fun s => "`" ++ s.key ++ "`")
      = "`, expected one of `script_dir`, `readme`, `shell`, `python`, `pandoc`" := by decide +kernel
  calc unknownKeyReason key
      = "unknown field `" ++ key ++ ("`, expected one of "
        ++ ", ".intercalate (Setting.all.map fun s => "`" ++ s.key ++ "`")) := String.append_assoc
    _ = _ := congrArg ("unknown field `" ++ key ++ ·) hlist

theorem wrongTypeReason_eq (s : Setting) (found : String) : wrongTypeReason s found =
    "invalid type: " ++ found ++ ", expected " ++ if s.key ∈ pathKeys then "a UTF-8 path string" else "a string" :=
  congrArg ("invalid type: " ++ found ++ ", expected " ++ ·) s.expected_eq

theorem Objection.of_defect? {entry : String × Toml.Value} {reason : String} (h : defect? entry = some reason) :
    Objection entry reason := by
  obtain ⟨key, v⟩ := entry
  by_cases hkey : key ∈ keys
  · obtain ⟨s, rfl⟩ := Setting.mem_keys_iff.1 hkey
    rw [defect?_of_key] at h
    split at h
    · cases h
    · rename_i htext
      have hnone : v.text? = none := by simpa using htext
      cases hfound : v.describe with
      | none =>
        rw [hfound] at h
        cases h
        exact .nameless hkey hnone hfound
      | some found =>
        rw [hfound] at h
        cases h
        show Objection _ (wrongTypeReason s found)
        rw [wrongTypeReason_eq]
        exact .wrongType hkey hnone hfound
  · rw [defect?_of_unknown v hkey, unknownKeyReason_eq] at h
    cases h
    exact .unknownKey hkey

/-- The defects of an entry are the objections to it. -/
theorem defect?_eq_some_iff {entry : String × Toml.Value} {reason : String} :
    defect? entry = some reason ↔ Objection entry reason := by
  refine ⟨Objection.of_defect?, fun h => ?_⟩
  cases h with
  | unknownKey hkey => rw [defect?_of_unknown _ hkey, unknownKeyReason_eq]
  | wrongType hkey htext hfound =>
    obtain ⟨s, rfl⟩ := Setting.mem_keys_iff.1 hkey
    rw [defect?_of_key, htext, hfound, if_neg (by simp)]
    exact congrArg some (wrongTypeReason_eq s _)
  | nameless hkey htext hnone =>
    obtain ⟨s, rfl⟩ := Setting.mem_keys_iff.1 hkey
    rw [defect?_of_key, htext, hnone, if_neg (by simp)]
    rfl

/-! ## The order of the keys -/

theorem sorted_perm (entries : Toml.Entries) : (sorted entries).Perm entries := List.mergeSort_perm _ _

theorem sorted_pairwise (entries : Toml.Entries) : (sorted entries).Pairwise fun a b => a.1 ≤ b.1 := by
  have htrans (a b c : String × Toml.Value) (hab : decide (a.1 ≤ b.1) = true) (hbc : decide (b.1 ≤ c.1) = true) :
      decide (a.1 ≤ c.1) = true := by
    simpa using String.le_trans (of_decide_eq_true hab) (of_decide_eq_true hbc)
  have htotal (a b : String × Toml.Value) : (decide (a.1 ≤ b.1) || decide (b.1 ≤ a.1)) = true := by
    simpa using String.le_total a.1 b.1
  exact (List.pairwise_mergeSort htrans htotal entries).imp of_decide_eq_true

/-- In ascending order the first defect found is that of the least bad key, which no later one hides. -/
theorem least_of_findSome? {entries : Toml.Entries} {reason : String}
    (h : (sorted entries).findSome? defect? = some reason) :
    ∃ entry ∈ entries, Objection entry reason ∧
      ∀ other ∈ entries, ¬Allowed other → Bytes.ofString entry.1 ≤ Bytes.ofString other.1 := by
  obtain ⟨before, entry, after, hsplit, hdefect, hbefore⟩ := List.findSome?_eq_some_iff.1 h
  have hmem : ∀ x, x ∈ entries ↔ x ∈ before ++ entry :: after := by
    intro x
    rw [← hsplit, (sorted_perm entries).mem_iff]
  have hpair : (before ++ entry :: after).Pairwise fun a b => a.1 ≤ b.1 := hsplit ▸ sorted_pairwise entries
  refine ⟨entry, (hmem entry).2 (by simp), Objection.of_defect? hdefect, fun other hother hbad => ?_⟩
  rw [Bytes.ofString_le_iff]
  rcases List.mem_append.1 ((hmem other).1 hother) with hfirst | hfirst
  · exact absurd (defect?_eq_none_iff.1 (hbefore other hfirst)) hbad
  · rcases List.mem_cons.1 hfirst with rfl | hlater
    · exact String.le_refl _
    · exact List.rel_of_pairwise_cons (List.pairwise_append.1 hpair).2.1 hlater

/-! ## The values of the settings -/

section Values

variable (c : Config) {s s' : Setting}

theorem get_set_self (s : Setting) (text : String) : (c.set s text).get s = text := by cases s <;> rfl

theorem get_set_of_ne (h : s ≠ s') (text : String) : (c.set s text).get s' = c.get s' := by
  cases s <;> cases s' <;> first | rfl | exact absurd rfl h

/-- A configuration is the values of its settings. -/
theorem eq_of_get {c d : Config} (h : ∀ s : Setting, c.get s = d.get s) : c = d := by
  obtain ⟨⟨_⟩, ⟨_⟩, _, _, _⟩ := c
  obtain ⟨⟨_⟩, ⟨_⟩, _, _, _⟩ := d
  cases h .scriptDir
  cases h .readme
  cases h .shell
  cases h .python
  cases h .pandoc
  rfl

theorem get_apply_self (s : Setting) (text : String) : (c.apply (s.key, .string text)).get s = text := by
  rw [apply, Setting.ofKey?_key]
  exact get_set_self c s text

theorem get_apply_of_ne {entry : String × Toml.Value} (h : entry.1 ≠ s.key) : (c.apply entry).get s = c.get s := by
  unfold apply
  split
  · rename_i s' text hkey _
    refine get_set_of_ne c (fun heq => h ?_) text
    rw [← heq, Setting.key_of_ofKey? hkey]
  · rfl

/-- A setting that no entry names stays as it is. -/
theorem get_foldl_of_absent {entries : Toml.Entries} (h : s.key ∉ entries.map Prod.fst) :
    (entries.foldl apply c).get s = c.get s := by
  induction entries generalizing c with
  | nil => rfl
  | cons entry rest ih =>
    obtain ⟨hne, hrest⟩ : s.key ≠ entry.1 ∧ s.key ∉ rest.map Prod.fst := by simpa using h
    rw [List.foldl_cons, ih _ hrest, get_apply_of_ne c hne.symm]

/-- A setting that an entry names has the text given there: no later entry names it. -/
theorem get_foldl_of_mem {entries : Toml.Entries} (hdistinct : entries.Distinct) {text : String}
    (h : (s.key, .string text) ∈ entries) : (entries.foldl apply c).get s = text := by
  induction entries generalizing c with
  | nil => cases h
  | cons entry rest ih =>
    obtain ⟨hnew, hrest⟩ := List.nodup_cons.1 hdistinct
    rw [List.foldl_cons]
    rcases List.mem_cons.1 h with rfl | hmem
    · rw [get_foldl_of_absent _ hnew, get_apply_self]
    · exact ih _ hrest hmem

end Values

/-! ## Documents -/

/-- What a document with the given entries decides: the settings it gives, the others being the standard ones, or
the objection to the least of the entries that may not stand there. -/
inductive ReadsAs (path : Path) (entries : Toml.Entries) : Except Failure Config → Prop
  | accepted {c : Config} (hall : ∀ entry ∈ entries, Allowed entry)
      (hgiven : ∀ (s : Setting) (text : String), (s.key, .string text) ∈ entries → c.get s = text)
      (habsent : ∀ s : Setting, s.key ∉ entries.map Prod.fst → c.get s = standard.get s) :
      ReadsAs path entries (.ok c)
  | refused {entry : String × Toml.Value} {reason : String} (hmem : entry ∈ entries)
      (hreason : Objection entry reason)
      (hleast : ∀ other ∈ entries, ¬Allowed other → Bytes.ofString entry.1 ≤ Bytes.ofString other.1) :
      ReadsAs path entries (.error (.invalidConfig path reason))

theorem Objection.not_allowed {entry : String × Toml.Value} {reason : String} (h : Objection entry reason) :
    ¬Allowed entry := by
  rw [← defect?_eq_none_iff, defect?_eq_some_iff.2 h]
  exact Option.some_ne_none reason

theorem Objection.unique {entry : String × Toml.Value} {reason reason' : String} (h : Objection entry reason)
    (h' : Objection entry reason') : reason = reason' :=
  Option.some.inj ((defect?_eq_some_iff.2 h).symm.trans (defect?_eq_some_iff.2 h'))

namespace ReadsAs

variable {path : Path} {entries : Toml.Entries} {result result' : Except Failure Config}

/-- A document is read in one way at most. -/
theorem unique (hdistinct : entries.Distinct) (h : ReadsAs path entries result)
    (h' : ReadsAs path entries result') : result = result' := by
  cases h with
  | accepted hall hgiven habsent =>
    cases h' with
    | accepted hall' hgiven' habsent' =>
      refine congrArg Except.ok (eq_of_get fun s => ?_)
      by_cases hs : s.key ∈ entries.map Prod.fst
      · obtain ⟨⟨key, v⟩, hmem, hkey⟩ := List.mem_map.1 hs
        obtain ⟨-, text, rfl⟩ := hall _ hmem
        cases hkey
        rw [hgiven s text hmem, hgiven' s text hmem]
      · rw [habsent s hs, habsent' s hs]
    | refused hmem hreason _ => exact absurd (hall _ hmem) hreason.not_allowed
  | refused hmem hreason hleast =>
    cases h' with
    | accepted hall _ _ => exact absurd (hall _ hmem) hreason.not_allowed
    | refused hmem' hreason' hleast' =>
      rename_i entry reason entry' reason'
      -- each of the two keys is at most the other, and a key stands once
      obtain ⟨key, v⟩ := entry
      obtain ⟨key', v'⟩ := entry'
      have hle := Bytes.ofString_le_iff.1 (hleast _ hmem' hreason'.not_allowed)
      have hge := Bytes.ofString_le_iff.1 (hleast' _ hmem hreason.not_allowed)
      obtain rfl : key = key' := String.le_antisymm hle hge
      obtain rfl : v = v' := hdistinct.eq_of_mem hmem hmem'
      rw [hreason.unique hreason']

end ReadsAs

/-- Every table is read somehow. -/
theorem readsAs_parse {text : String} {entries : Toml.Entries} (h : Toml.parse text = some entries) (path : Path) :
    ReadsAs path entries (parse path text) := by
  rw [parse, h]
  dsimp only
  unfold ofEntries
  cases hfound : (sorted entries).findSome? defect? with
  | some reason =>
    obtain ⟨entry, hmem, hreason, hleast⟩ := least_of_findSome? hfound
    exact .refused hmem hreason hleast
  | none =>
    refine .accepted (fun entry hmem => ?_) (fun s text hmem => ?_) (fun s hs => ?_)
    · exact defect?_eq_none_iff.1 (List.findSome?_eq_none_iff.1 hfound _ ((sorted_perm entries).mem_iff.2 hmem))
    · exact get_foldl_of_mem standard (Toml.parse_distinct h) hmem
    · exact get_foldl_of_absent standard hs

/-! ## What does not count -/

/-- All that counts of an entry: its key, its text if it is one, and its name in messages. -/
def seen (entry : String × Toml.Value) : String × Option String × Option String :=
  (entry.1, entry.2.text?, entry.2.describe)

theorem key_eq_of_seen {entry other : String × Toml.Value} (h : seen entry = seen other) : entry.1 = other.1 :=
  (Prod.mk.inj h).1

theorem defect?_congr {entry other : String × Toml.Value} (h : seen entry = seen other) :
    defect? entry = defect? other := by
  obtain ⟨key, v⟩ := entry
  obtain ⟨key', v'⟩ := other
  obtain ⟨rfl, htext, hname⟩ : key = key' ∧ v.text? = v'.text? ∧ v.describe = v'.describe := by
    simpa [seen] using h
  by_cases hkey : key ∈ keys
  · obtain ⟨s, rfl⟩ := Setting.mem_keys_iff.1 hkey
    rw [defect?_of_key, defect?_of_key, htext, hname]
  · rw [defect?_of_unknown v hkey, defect?_of_unknown v' hkey]

/-- What a document decides depends neither on the order of its entries nor on anything below them. -/
theorem ReadsAs.of_seen {path : Path} {entries entries' : Toml.Entries} {result : Except Failure Config}
    (hperm : (entries'.map seen).Perm (entries.map seen)) (h : ReadsAs path entries result) :
    ReadsAs path entries' result := by
  -- every entry of the one document has its like in the other
  have hlike : ∀ entry ∈ entries, ∃ other ∈ entries', seen other = seen entry := fun entry hmem =>
    List.mem_map.1 (hperm.mem_iff.2 (List.mem_map_of_mem hmem))
  have hlike' : ∀ entry ∈ entries', ∃ other ∈ entries, seen other = seen entry := fun entry hmem =>
    List.mem_map.1 (hperm.mem_iff.1 (List.mem_map_of_mem hmem))
  cases h with
  | accepted hall hgiven habsent =>
    refine .accepted (fun entry hmem => ?_) (fun s text hmem => ?_) (fun s hs => ?_)
    · obtain ⟨other, hother, heq⟩ := hlike' entry hmem
      exact defect?_eq_none_iff.1 ((defect?_congr heq).symm.trans (defect?_eq_none_iff.2 (hall other hother)))
    · obtain ⟨⟨key, v⟩, hother, heq⟩ := hlike' _ hmem
      obtain ⟨rfl, htext, -⟩ : key = s.key ∧ v.text? = some text ∧ _ := by simpa [seen, Toml.Value.text?] using heq
      exact hgiven s text (Toml.Value.text?_eq_some.1 htext ▸ hother)
    · refine habsent s fun hmem => hs ?_
      obtain ⟨⟨key, v⟩, hentry, hkey⟩ := List.mem_map.1 hmem
      obtain ⟨other, hother, heq⟩ := hlike _ hentry
      exact List.mem_map.2 ⟨other, hother, (key_eq_of_seen heq).trans hkey⟩
  | refused hmem hreason hleast =>
    obtain ⟨other, hother, heq⟩ := hlike _ hmem
    refine .refused hother (defect?_eq_some_iff.1 ?_) fun bad hbad hnot => ?_
    · rw [defect?_congr heq]
      exact defect?_eq_some_iff.2 hreason
    · obtain ⟨like, hlikemem, hlikeeq⟩ := hlike' bad hbad
      rw [key_eq_of_seen heq, ← key_eq_of_seen hlikeeq]
      refine hleast like hlikemem fun hallowed => hnot ?_
      exact defect?_eq_none_iff.1 ((defect?_congr hlikeeq).symm.trans (defect?_eq_none_iff.2 hallowed))

/-- Main statement: no key of a document stands twice, and the document is read as `ReadsAs` says and in no other
way; where its numbers have machine forms, an objection to a value names the kind of the value; and a document
with the same entries in any order is read the same. -/
theorem parse_reads {text : String} {entries : Toml.Entries} (h : Toml.parse text = some entries) (path : Path) :
    entries.Distinct
      ∧ (∀ result, parse path text = result ↔ ReadsAs path entries result)
      ∧ (Toml.Value.entriesFit entries = true →
          ∀ entry ∈ entries, ∃ more, entry.2.describe = some (entry.2.kind ++ more))
      ∧ ∀ (text' : String) (entries' : Toml.Entries), Toml.parse text' = some entries' →
          (entries'.map seen).Perm (entries.map seen) → parse path text' = parse path text := by
  have hdistinct := Toml.parse_distinct h
  refine ⟨hdistinct, fun result => ⟨?_, fun hread => ?_⟩, fun hfit entry hmem => ?_, fun text' entries' h' hperm => ?_⟩
  · rintro rfl
    exact readsAs_parse h path
  · exact (readsAs_parse h path).unique hdistinct hread
  · exact Toml.Value.describe_kind (Toml.Value.fits_of_mem hfit hmem)
  · exact ((readsAs_parse h' path).of_seen hperm.symm).unique hdistinct (readsAs_parse h path)

/-- Of two bad keys the lesser one is reported, whichever stands first. -/
theorem parse_reads_two_bad_keys :
    parse ⟨"c.toml"⟩ "zip = true\npython = 3\n" =
        .error (.invalidConfig ⟨"c.toml"⟩ "invalid type: integer `3`, expected a string")
      ∧ parse ⟨"c.toml"⟩ "python = 3\nzip = true\n" = parse ⟨"c.toml"⟩ "zip = true\npython = 3\n" := by
  have hseen : (Toml.parse "zip = true\npython = 3\n").map (List.map seen) =
      some [("zip", none, some "boolean `true`"), ("python", none, some "integer `3`")] := by decide +kernel
  have hseen' : (Toml.parse "python = 3\nzip = true\n").map (List.map seen) =
      some [("python", none, some "integer `3`"), ("zip", none, some "boolean `true`")] := by decide +kernel
  obtain ⟨entries, hparse, hentries⟩ := Option.map_eq_some_iff.1 hseen
  obtain ⟨entries', hparse', hentries'⟩ := Option.map_eq_some_iff.1 hseen'
  obtain ⟨-, hreads, -, horder⟩ := parse_reads hparse ⟨"c.toml"⟩
  have hreason : Objection ("python", .integer 3) "invalid type: integer `3`, expected a string" :=
    defect?_eq_some_iff.1 (by decide +kernel)
  have hplain : ReadsAs ⟨"c.toml"⟩ [("zip", .boolean true), ("python", .integer 3)]
      (.error (.invalidConfig ⟨"c.toml"⟩ "invalid type: integer `3`, expected a string")) := by
    refine .refused (by simp) hreason fun other hother _ => ?_
    have hmem : other.1 ∈ ["zip", "python"] := List.mem_map_of_mem hother
    have hall : ∀ key ∈ ["zip", "python"], Bytes.ofString "python" ≤ Bytes.ofString key := by decide +kernel
    exact hall other.1 hmem
  refine ⟨(hreads _).2 (hplain.of_seen ?_), horder _ entries' hparse' ?_⟩
  · rw [hentries]
    exact .of_eq (by decide +kernel)
  · rw [hentries, hentries']
    exact .swap _ _ _

end Config

end StubRelease
