/-
# StubRelease.Proofs.BatchCommandLine -- what the command line for several versions says

A command line for several versions is a row of items in any order: values, versions attached to their option or
in the word after it, and the two flags; behind a `--` every word is a value. An item is read for itself, whatever
stands around it. In particular a `--version` takes the word after it and nothing else. Main statement: a row of
items is understood exactly if no flag is repeated and its values are two texts, and the request holds the values
and the versions in their order; and every request is that of some row (`readBatch_request_iff`).
-/
import StubRelease.Proofs.CommandLine

namespace StubRelease.CommandLine

/-! ## Items -/

/-- A word that is no option: it begins with no dash, or it is a lone dash. -/
structure Argument where
  bytes : Bytes
  not_isOption : ¬ IsOption bytes

theorem Argument.ne_endOfOptions (argument : Argument) : Word.ofBytes argument.bytes ≠ .endOfOptions := by
  intro hend
  exact ne_endMark argument.not_isOption (Scan.ofBytes_eq_endOfOptions hend)

/-- The items of a command line for several versions. -/
inductive Item where
  | value (argument : Argument)
  /-- `--version=V`, where `V` may be empty or begin with a dash. -/
  | attached (version : Bytes)
  /-- `--version V`, two words. -/
  | spaced (version : Argument)
  | skipAggregate
  /-- `-q`, or `--quiet`. -/
  | quiet (long : Bool)

namespace Item

def versionOption : Bytes := Bytes.ofString "--version"

def skipOption : Bytes := Bytes.ofString "--no-aggregate"

def quietOption (long : Bool) : Bytes := Bytes.ofString (if long then "--quiet" else "-q")

/-- The words of an item. -/
def words : Item → List Bytes
  | value argument => [argument.bytes]
  | attached version => [versionOption ++ Word.equals :: version]
  | spaced version => [versionOption, version.bytes]
  | skipAggregate => [skipOption]
  | quiet long => [quietOption long]

def value? : Item → Option Bytes
  | value argument => some argument.bytes
  | _ => none

def version? : Item → Option Bytes
  | attached version => some version
  | spaced version => some version.bytes
  | _ => none

def isSkip : Item → Bool
  | skipAggregate => true
  | _ => false

def isQuiet : Item → Bool
  | quiet _ => true
  | _ => false

/-- What a line ends in: nothing, or the words behind a `--`. -/
def ending : Option (List Bytes) → List Bytes
  | none => []
  | some behind => endMark :: behind

theorem isQuiet_quietOption (long : Bool) : Scan.IsQuiet (quietOption long) := by
  cases long
  · exact .inl rfl
  · exact .inr rfl

theorem ofBytes_versionOption : Word.ofBytes versionOption = .long (Bytes.ofString "version") none := by decide

theorem ofBytes_skipOption : Word.ofBytes skipOption = .long (Bytes.ofString "no-aggregate") none := by decide

/-- The first equals sign is the one of the option, whatever the version is. -/
theorem ofBytes_attached (version : Bytes) :
    Word.ofBytes (versionOption ++ Word.equals :: version) = .long (Bytes.ofString "version") (some version) := by
  have hoption : versionOption = [45, 45, 118, 101, 114, 115, 105, 111, 110] := by decide
  rw [hoption]
  rfl

theorem quietOption_ne_endOfOptions (long : Bool) : Word.ofBytes (quietOption long) ≠ .endOfOptions := by
  cases long <;> decide

end Item

namespace Scan

variable {g : Grammar} {s t : Scan} {found : Found}

/-- A scan that has taken a version. -/
def withVersion (s : Scan) (text : String) : Scan :=
  { s with found := { s.found with versions := s.found.versions ++ [text] } }

/-- A scan that has met the flag that skips the tarballs. -/
def skipped (s : Scan) : Scan := { s with found := { s.found with skipAggregate := true } }

theorem Clean.withVersion (h : s.Clean g) (text : String) : (s.withVersion text).Clean g :=
  ⟨h.pending_eq, h.waiting_eq, h.taken_eq, h.taken_le⟩

theorem Clean.skipped (h : s.Clean g) : s.skipped.Clean g :=
  ⟨h.pending_eq, h.waiting_eq, h.taken_eq, h.taken_le⟩

/-- The scan understands an item, and of the scan that has taken it something is true. -/
def Takes (g : Grammar) (s : Scan) (item : Item) (after : Scan → Prop) : Prop :=
  match item with
  | .value argument => s.taken < g.positionals.length ∧
    ∃ text, argument.bytes = Bytes.ofString text ∧ after (s.withValue text)
  | .attached version => ∃ text, version = Bytes.ofString text ∧ after (s.withVersion text)
  | .spaced version => ∃ text, version.bytes = Bytes.ofString text ∧ after (s.withVersion text)
  | .skipAggregate => s.found.skipAggregate = false ∧ after s.skipped
  | .quiet _ => s.found.quiet = false ∧ after s.quieted

/-- An item leaves a clean scan clean. -/
theorem Clean.takes_congr (h : s.Clean g) {item : Item} {after after' : Scan → Prop}
    (hafter : ∀ t : Scan, t.Clean g → (after t ↔ after' t)) : Takes g s item after ↔ Takes g s item after' := by
  cases item with
  | value argument =>
    apply and_congr_right
    intro room
    apply exists_congr
    intro text
    exact and_congr_right fun _ => hafter _ (h.withValue room text)
  | attached version => exact exists_congr fun text => and_congr_right fun _ => hafter _ (h.withVersion text)
  | spaced version => exact exists_congr fun text => and_congr_right fun _ => hafter _ (h.withVersion text)
  | skipAggregate => exact and_congr_right fun _ => hafter _ h.skipped
  | quiet _ => exact and_congr_right fun _ => hafter _ h.quieted

/-! ## One item at a time -/

theorem Clean.raise_quiet (h : s.Clean g) :
    s.raise .quiet = if s.found.quiet then .error (.refused (.repeated Action.quiet.shown)) else .ok s.quieted := by
  rw [raise, h.settle_eq]
  rfl

theorem Clean.raise_skipAggregate (h : s.Clean g) : s.raise .skipAggregate =
    if s.found.skipAggregate then .error (.refused (.repeated Action.skipAggregate.shown)) else .ok s.skipped := by
  rw [raise, h.settle_eq]
  rfl

/-- A scan that waits for a version takes any word that is no option for one. -/
theorem Clean.raise_version (h : s.Clean g) : s.raise .version =
    .ok { s with waiting := true, pending := some (.valueless Action.version.shown) } := by
  rw [raise, h.settle_eq]
  rfl

/-- A version that is text answers what was pending; one that is not will be reported. -/
theorem Clean.addVersion_cases (h : s.Clean g) {u : Scan} (hfound : u.found = s.found) (htaken : u.taken = s.taken)
    (version : Bytes) :
    (∃ text, version = Bytes.ofString text ∧ u.addVersion version = s.withVersion text) ∨
      version.toString? = none ∧ (u.addVersion version).Blocked := by
  cases hread : version.toString? with
  | none =>
    refine .inr ⟨rfl, ?_⟩
    rw [addVersion, hread]
    exact ⟨rfl, rfl⟩
  | some text =>
    refine .inl ⟨text, Bytes.toString?_eq_some_iff.1 hread, ?_⟩
    rw [addVersion, hread]
    obtain ⟨found, pending, waiting, taken⟩ := s
    obtain rfl : pending = none := h.pending_eq
    obtain rfl : waiting = false := h.waiting_eq
    show Scan.mk { u.found with versions := u.found.versions ++ [text] } none false u.taken = _
    rw [hfound, htaken]
    rfl

/-- A word that is refused ends the line. -/
theorem words_of_error {bs : Bytes} {halt : Halt} (rest : List Bytes) (hkind : Word.ofBytes bs ≠ .endOfOptions)
    (hword : s.word g (Word.ofBytes bs) = .error halt) : (words g s (bs :: rest) >>= finish g) ≠ .ok found := by
  rw [words_cons s rest hkind, hword]
  nofun

/-- After a word that is understood the line goes on. -/
theorem words_of_ok {bs : Bytes} (rest : List Bytes) (hkind : Word.ofBytes bs ≠ .endOfOptions)
    (hword : s.word g (Word.ofBytes bs) = .ok t) : words g s (bs :: rest) = words g t rest := by
  rw [words_cons s rest hkind, hword]
  rfl

/-- A flag is read once. -/
theorem flag_eq_ok_iff {bs : Bytes} {isSet : Bool} {halt : Halt} (rest : List Bytes)
    (hend : Word.ofBytes bs ≠ .endOfOptions)
    (hword : s.word g (Word.ofBytes bs) = if isSet then .error halt else .ok t) :
    (words g s (bs :: rest) >>= finish g) = .ok found ↔
      isSet = false ∧ (words g t rest >>= finish g) = .ok found := by
  cases isSet with
  | true =>
    rw [if_pos rfl] at hword
    constructor
    · intro hfound
      exact absurd hfound (words_of_error rest hend hword)
    · rintro ⟨hset, -⟩
      cases hset
  | false =>
    rw [if_neg Bool.false_ne_true] at hword
    rw [words_of_ok rest hend hword]
    exact ⟨fun hrest => ⟨rfl, hrest⟩, fun hrest => hrest.2⟩

/-- Once a version has been added, the line goes on if it is a text. -/
theorem Clean.version_eq_ok_iff (h : s.Clean g) {u : Scan} (hfound : u.found = s.found) (htaken : u.taken = s.taken)
    {version : Bytes} {k : Scan → Except Halt Found} (hk : ∀ t : Scan, t.Blocked → k t ≠ .ok found) :
    k (u.addVersion version) = .ok found ↔
      ∃ text, version = Bytes.ofString text ∧ k (s.withVersion text) = .ok found := by
  obtain ⟨text, rfl, hadded⟩ | ⟨hread, hblocked⟩ := h.addVersion_cases hfound htaken version
  · rw [hadded]
    constructor
    · intro hrest
      exact ⟨text, rfl, hrest⟩
    · rintro ⟨other, htext, hrest⟩
      obtain rfl := Bytes.ofString_injective htext
      exact hrest
  · constructor
    · intro hrest
      exact absurd hrest (hk _ hblocked)
    · rintro ⟨text, rfl, -⟩
      rw [Bytes.toString?_ofString] at hread
      cases hread

section Items

open Program (batch)

variable (h : s.Clean batch.grammar) (rest : List Bytes)

include h

/-- An attached version ends with its word. -/
theorem Clean.attached_eq_ok_iff (version : Bytes) :
    (words batch.grammar s ((Item.attached version).words ++ rest) >>= finish batch.grammar) = .ok found ↔
      ∃ text, version = Bytes.ofString text ∧
        (words batch.grammar (s.withVersion text) rest >>= finish batch.grammar) = .ok found := by
  have hkind := Item.ofBytes_attached version
  have hend : Word.ofBytes (Item.versionOption ++ Word.equals :: version) ≠ .endOfOptions := by
    rw [hkind]
    nofun
  have hlong : batch.grammar.long? (Bytes.ofString "version") = some .version := by decide
  have hword : s.word batch.grammar (Word.ofBytes (Item.versionOption ++ Word.equals :: version)) =
      (s.addVersion version).settle := by
    rw [hkind, word]
    simp only [long, hlong, h.settle_eq]
    rfl
  show (words batch.grammar s ((Item.versionOption ++ Word.equals :: version) :: rest) >>= _) = _ ↔ _
  rw [words_cons s rest hend, hword, bind_assoc]
  -- a version that is no text is reported at once
  rw [h.version_eq_ok_iff (u := s) rfl rfl (k := fun t => t.settle >>= fun t =>
    words batch.grammar t rest >>= finish batch.grammar) fun t ht => ht.settle_bind_ne_ok]
  simp only [(h.withVersion _).settle_eq]
  rfl

/-- A version takes the one word after its option, whatever follows. -/
theorem Clean.spaced_eq_ok_iff (version : Argument) :
    (words batch.grammar s ((Item.spaced version).words ++ rest) >>= finish batch.grammar) = .ok found ↔
      ∃ text, version.bytes = Bytes.ofString text ∧
        (words batch.grammar (s.withVersion text) rest >>= finish batch.grammar) = .ok found := by
  have hend : Word.ofBytes Item.versionOption ≠ .endOfOptions := by decide
  have hlong : batch.grammar.long? (Bytes.ofString "version") = some .version := by decide
  -- the option waits for its value, and this is the next word
  obtain ⟨u, hu⟩ : ∃ u : Scan, u = { s with waiting := true, pending := some (.valueless Action.version.shown) } :=
    ⟨_, rfl⟩
  have hoption : s.word batch.grammar (Word.ofBytes Item.versionOption) = .ok u := by
    rw [Item.ofBytes_versionOption, word, hu, ← h.raise_version]
    simp only [long, hlong]
  have hkind := ofBytes_of_not_isOption version.not_isOption
  have hword : u.word batch.grammar (Word.ofBytes version.bytes) = .ok (u.addVersion version.bytes) := by
    rw [hkind, word, hu]
    rfl
  show (words batch.grammar s (Item.versionOption :: version.bytes :: rest) >>= _) = _ ↔ _
  rw [words_of_ok _ hend hoption, words_of_ok rest version.ne_endOfOptions hword]
  exact h.version_eq_ok_iff (by rw [hu]) (by rw [hu])
    (k := fun t => words batch.grammar t rest >>= finish batch.grammar) fun t ht => ht.words_ne_ok rest

/-- A clean scan reads an item for itself, and then the rest of the line. -/
theorem Clean.item_eq_ok_iff (item : Item) :
    (words batch.grammar s (item.words ++ rest) >>= finish batch.grammar) = .ok found ↔
      Takes batch.grammar s item fun t => (words batch.grammar t rest >>= finish batch.grammar) = .ok found := by
  cases item with
  | value argument =>
    have hkind := ofBytes_of_not_isOption argument.not_isOption
    show (words batch.grammar s (argument.bytes :: rest) >>= _) = _ ↔ _
    rw [words_cons s rest argument.ne_endOfOptions, bind_assoc, h.word_value hkind]
    exact h.addValue_bind_eq_ok_iff fun t ht => ht.words_ne_ok rest
  | attached version => exact h.attached_eq_ok_iff rest version
  | spaced version => exact h.spaced_eq_ok_iff rest version
  | skipAggregate =>
    have hlong : batch.grammar.long? (Bytes.ofString "no-aggregate") = some .skipAggregate := by decide
    have hword : s.word batch.grammar (Word.ofBytes Item.skipOption) = s.raise .skipAggregate := by
      rw [Item.ofBytes_skipOption, word]
      simp only [long, hlong]
    exact flag_eq_ok_iff rest (by decide) (hword.trans h.raise_skipAggregate)
  | quiet long =>
    have hword := word_of_isQuiet (g := batch.grammar) rfl (by decide) s (Item.isQuiet_quietOption long)
    exact flag_eq_ok_iff rest (Item.quietOption_ne_endOfOptions long) (hword.trans h.raise_quiet)

end Items

/-! ## A row of items -/

/-- What a row of items adds to what a scan has found. Each flag counts for one, so none is met twice. -/
structure Adds (s : Scan) (items : List Item) (behind : List Bytes) (found : Found) : Prop where
  values : found.values.map Bytes.ofString =
    s.found.values.map Bytes.ofString ++ (items.filterMap Item.value? ++ behind)
  two : found.values.length = 2
  versions : found.versions.map Bytes.ofString =
    s.found.versions.map Bytes.ofString ++ items.filterMap Item.version?
  skipAggregate : found.skipAggregate.toNat = s.found.skipAggregate.toNat + items.countP Item.isSkip
  quiet : found.quiet.toNat = s.found.quiet.toNat + items.countP Item.isQuiet

theorem eq_of_toNat_eq : ∀ {a b : Bool}, a.toNat = b.toNat → a = b := by decide

/-- A flag that counts one more than another one has that one off, and is itself the first. -/
theorem toNat_eq_add_succ_iff {a b : Bool} {n : Nat} :
    a.toNat = b.toNat + (n + 1) ↔ b = false ∧ a.toNat = true.toNat + n := by
  have hle := Bool.toNat_le a
  have htrue : true.toNat = 1 := rfl
  have hfalse : false.toNat = 0 := rfl
  cases b with
  | false =>
    rw [htrue, hfalse]
    constructor
    · intro hcount
      exact ⟨rfl, by omega⟩
    · rintro ⟨-, hcount⟩
      omega
  | true =>
    rw [htrue]
    constructor
    · intro hcount
      omega
    · rintro ⟨hset, -⟩
      cases hset

section Rows

variable {items : List Item} {behind : List Bytes}

/-- A value that stands first in a row is a text, and there is room for it. -/
theorem adds_value {argument : Argument} (htaken : s.taken = s.found.values.length) :
    s.Adds (.value argument :: items) behind found ↔ s.taken < 2 ∧
      ∃ text, argument.bytes = Bytes.ofString text ∧ (s.withValue text).Adds items behind found := by
  constructor
  · rintro ⟨values, two, versions, skipAggregate, quiet⟩
    have hsplit : found.values.map Bytes.ofString = s.found.values.map Bytes.ofString ++
        (argument.bytes :: (items.filterMap Item.value? ++ behind)) := values
    obtain ⟨before, after, hvalues, hbefore, hafter⟩ := List.map_eq_append_iff.1 hsplit
    obtain ⟨text, rest, rfl, htext, hrest⟩ := List.map_eq_cons_iff.1 hafter
    have hlength := congrArg List.length hbefore
    rw [List.length_map, List.length_map] at hlength
    rw [hvalues, List.length_append, List.length_cons] at two
    refine ⟨by omega, text, htext.symm, ?_, ?_, versions, skipAggregate, quiet⟩
    · show found.values.map Bytes.ofString = (s.found.values ++ [text]).map Bytes.ofString ++ _
      rw [hsplit, List.map_append, List.append_assoc, List.map_singleton, List.singleton_append, htext]
    · rw [hvalues, List.length_append, List.length_cons]
      omega
  · rintro ⟨-, text, htext, values, two, versions, skipAggregate, quiet⟩
    refine ⟨?_, two, versions, skipAggregate, quiet⟩
    have hsplit : found.values.map Bytes.ofString = (s.found.values ++ [text]).map Bytes.ofString ++
        (items.filterMap Item.value? ++ behind) := values
    show found.values.map Bytes.ofString = s.found.values.map Bytes.ofString ++
      (argument.bytes :: (items.filterMap Item.value? ++ behind))
    rw [hsplit, List.map_append, List.append_assoc, List.map_singleton, List.singleton_append, htext]

/-- So is a version that stands first, in either form. -/
theorem adds_version {item : Item} {version : Bytes} (hvalue : item.value? = none)
    (hversion : item.version? = some version) (hskip : item.isSkip = false) (hquiet : item.isQuiet = false) :
    s.Adds (item :: items) behind found ↔
      ∃ text, version = Bytes.ofString text ∧ (s.withVersion text).Adds items behind found := by
  have hvalues : (item :: items).filterMap Item.value? = items.filterMap Item.value? :=
    List.filterMap_cons_none hvalue
  have hversions : (item :: items).filterMap Item.version? = version :: items.filterMap Item.version? :=
    List.filterMap_cons_some hversion
  have hskips : (item :: items).countP Item.isSkip = items.countP Item.isSkip :=
    List.countP_cons_of_neg (by simp [hskip])
  have hquiets : (item :: items).countP Item.isQuiet = items.countP Item.isQuiet :=
    List.countP_cons_of_neg (by simp [hquiet])
  constructor
  · rintro ⟨values, two, versions, skipAggregate, quiet⟩
    rw [hvalues] at values
    rw [hversions] at versions
    rw [hskips] at skipAggregate
    rw [hquiets] at quiet
    obtain ⟨before, after, -, -, hafter⟩ := List.map_eq_append_iff.1 versions
    obtain ⟨text, rest, rfl, rfl, -⟩ := List.map_eq_cons_iff.1 hafter
    refine ⟨text, rfl, values, two, ?_, skipAggregate, quiet⟩
    show found.versions.map Bytes.ofString = (s.found.versions ++ [text]).map Bytes.ofString ++ _
    rw [versions, List.map_append, List.append_assoc, List.map_singleton, List.singleton_append]
  · rintro ⟨text, rfl, values, two, versions, skipAggregate, quiet⟩
    have hsplit : found.versions.map Bytes.ofString = (s.found.versions ++ [text]).map Bytes.ofString ++
        items.filterMap Item.version? := versions
    refine ⟨by rwa [hvalues], two, ?_, by rwa [hskips], by rwa [hquiets]⟩
    rw [hversions, hsplit, List.map_append, List.append_assoc, List.map_singleton, List.singleton_append]

theorem adds_skipAggregate : s.Adds (.skipAggregate :: items) behind found ↔
    s.found.skipAggregate = false ∧ s.skipped.Adds items behind found := by
  have hcount : (Item.skipAggregate :: items).countP Item.isSkip = items.countP Item.isSkip + 1 :=
    List.countP_cons_of_pos rfl
  constructor
  · rintro ⟨values, two, versions, skipAggregate, quiet⟩
    rw [hcount] at skipAggregate
    obtain ⟨hfirst, hrest⟩ := toNat_eq_add_succ_iff.1 skipAggregate
    exact ⟨hfirst, values, two, versions, hrest, quiet⟩
  · rintro ⟨hfirst, values, two, versions, hrest, quiet⟩
    have skipAggregate := toNat_eq_add_succ_iff.2 ⟨hfirst, hrest⟩
    rw [← hcount] at skipAggregate
    exact ⟨values, two, versions, skipAggregate, quiet⟩

theorem adds_quiet {long : Bool} : s.Adds (.quiet long :: items) behind found ↔
    s.found.quiet = false ∧ s.quieted.Adds items behind found := by
  have hcount : (Item.quiet long :: items).countP Item.isQuiet = items.countP Item.isQuiet + 1 :=
    List.countP_cons_of_pos rfl
  constructor
  · rintro ⟨values, two, versions, skipAggregate, quiet⟩
    rw [hcount] at quiet
    obtain ⟨hfirst, hrest⟩ := toNat_eq_add_succ_iff.1 quiet
    exact ⟨hfirst, values, two, versions, skipAggregate, hrest⟩
  · rintro ⟨hfirst, values, two, versions, skipAggregate, hrest⟩
    have quiet := toNat_eq_add_succ_iff.2 ⟨hfirst, hrest⟩
    rw [← hcount] at quiet
    exact ⟨values, two, versions, skipAggregate, quiet⟩

/-- What a row adds is what its first item adds, and then the rest. -/
theorem Clean.adds_cons (h : s.Clean Program.batch.grammar) (item : Item) :
    s.Adds (item :: items) behind found ↔
      Takes Program.batch.grammar s item fun t => t.Adds items behind found := by
  cases item with
  | value argument => exact adds_value h.taken_eq
  | attached version => exact adds_version rfl rfl rfl rfl
  | spaced version => exact adds_version rfl rfl rfl rfl
  | skipAggregate => exact adds_skipAggregate
  | quiet long => exact adds_quiet

/-- A row without items adds the values behind it. -/
theorem fills_iff_adds : Fills Program.batch.grammar s behind found ↔ s.Adds [] behind found := by
  constructor
  · rintro ⟨texts, rfl, hlength, rfl⟩
    have htwo : s.found.values.length + texts.length = 2 := hlength
    refine ⟨?_, ?_, (List.append_nil _).symm, rfl, rfl⟩
    · show (s.found.values ++ texts).map Bytes.ofString = _
      rw [List.map_append]
      rfl
    · show (s.found.values ++ texts).length = 2
      rw [List.length_append, htwo]
  · rintro ⟨values, two, versions, skipAggregate, quiet⟩
    have hvalues : found.values.map Bytes.ofString = s.found.values.map Bytes.ofString ++ behind := values
    obtain ⟨before, texts, hsplit, hbefore, hbehind⟩ := List.map_eq_append_iff.1 hvalues
    have hinj (x y : String) (h : Bytes.ofString x = Bytes.ofString y) : x = y := Bytes.ofString_injective h
    obtain rfl : before = s.found.values := (List.map_inj_right hinj).1 hbefore
    have hversions : found.versions = s.found.versions := (List.map_inj_right hinj).1 (by rw [versions]; simp)
    have hskip : found.skipAggregate = s.found.skipAggregate := eq_of_toNat_eq skipAggregate
    have hquiet : found.quiet = s.found.quiet := eq_of_toNat_eq quiet
    refine ⟨texts, hbehind.symm, ?_, ?_⟩
    · rw [← List.length_append, ← hsplit]
      exact two
    · obtain ⟨foundValues, foundVersions, foundQuiet, foundSkip⟩ := found
      simp only at hsplit hversions hskip hquiet
      rw [hsplit, hversions, hskip, hquiet]

theorem Clean.ending_eq_ok_iff (h : s.Clean Program.batch.grammar) (behind : Option (List Bytes)) :
    (words Program.batch.grammar s (Item.ending behind) >>= finish Program.batch.grammar) = .ok found ↔
      s.Adds [] (behind.getD []) found := by
  rw [← fills_iff_adds]
  cases behind with
  | none => exact h.fills_nil.symm
  | some behind =>
    have hs : { s with waiting := false } = s := by rw [← h.waiting_eq]
    show (words Program.batch.grammar s (endMark :: behind) >>= _) = _ ↔ _
    rw [words_endMark, hs, h.values_eq_ok_iff]
    rfl

/-- A clean scan reads a row of items exactly if it can add them. -/
theorem Clean.row_eq_ok_iff (h : s.Clean Program.batch.grammar) (items : List Item)
    (behind : Option (List Bytes)) :
    (words Program.batch.grammar s (items.flatMap Item.words ++ Item.ending behind) >>=
      finish Program.batch.grammar) = .ok found ↔ s.Adds items (behind.getD []) found := by
  induction items generalizing s with
  | nil => exact h.ending_eq_ok_iff behind
  | cons item items ih =>
    rw [List.flatMap_cons, List.append_assoc, h.item_eq_ok_iff, h.adds_cons]
    exact h.takes_congr fun t ht => ih ht

end Rows

end Scan

/-! ## Whole lines -/

theorem readBatch_eq_request_iff {name : Bytes} {words : List Bytes} {raw : RawBatch} :
    readBatch (name :: words) = .ok (.request raw) ↔
      ∃ found, Program.batch.grammar.scan words = .ok found ∧ found.rawBatch = raw := by
  rw [readBatch, Program.read, List.tail_cons]
  cases Program.batch.grammar.scan words with
  | ok found => simp
  | error halt => cases halt <;> simp

/-- What a row of items, with the words behind its `--`, says: its values are the two of the request, its versions
are those of the request, each in their order, and a flag that is set is there once and one that is not never. -/
structure Says (items : List Item) (behind : List Bytes) (raw : RawBatch) : Prop where
  values : items.filterMap Item.value? ++ behind = [raw.sourceDir.bytes, raw.blenderDir.bytes]
  versions : items.filterMap Item.version? = raw.versions.map Bytes.ofString
  skipAggregate : items.countP Item.isSkip = raw.skipAggregate.toNat
  quiet : items.countP Item.isQuiet = raw.quiet.toNat

theorem says_iff {items : List Item} {behind : List Bytes} {raw : RawBatch} :
    Says items behind raw ↔ ∃ found, Scan.start.Adds items behind found ∧ found.rawBatch = raw := by
  constructor
  · rintro ⟨values, versions, skipAggregate, quiet⟩
    refine ⟨⟨[raw.sourceDir.text, raw.blenderDir.text], raw.versions, raw.quiet, raw.skipAggregate⟩, ?_, rfl⟩
    refine ⟨values.symm, rfl, versions.symm, ?_, ?_⟩
    · rw [skipAggregate]
      exact (Nat.zero_add _).symm
    · rw [quiet]
      exact (Nat.zero_add _).symm
  · rintro ⟨⟨values, versions, isQuiet, skip⟩, hadds, rfl⟩
    match values, hadds.two with
    | [source, blender], _ =>
      refine ⟨hadds.values.symm, hadds.versions.symm, ?_, ?_⟩
      · rw [← Nat.zero_add (items.countP _)]
        exact hadds.skipAggregate.symm
      · rw [← Nat.zero_add (items.countP _)]
        exact hadds.quiet.symm

/-- The items that say what a request says, when its values stand behind a `--`. -/
def itemsOf (raw : RawBatch) : List Item :=
  raw.versions.map (fun version => .attached (Bytes.ofString version)) ++
    (List.replicate raw.skipAggregate.toNat .skipAggregate ++ List.replicate raw.quiet.toNat (.quiet true))

theorem says_itemsOf (raw : RawBatch) : Says (itemsOf raw) [raw.sourceDir.bytes, raw.blenderDir.bytes] raw := by
  have hversions : (raw.versions.map fun version => Item.attached (Bytes.ofString version)).filterMap Item.version? =
      raw.versions.map Bytes.ofString := by
    simp [List.filterMap_map, Function.comp_def, Item.version?]
  have hnone (p : Item → Bool) (hp : ∀ version, p (.attached version) = false) :
      (raw.versions.map fun version => Item.attached (Bytes.ofString version)).countP p = 0 := by
    simp [hp]
  constructor
  case values => simp [itemsOf, List.filterMap_replicate, Item.value?]
  case versions => simp [itemsOf, hversions, List.filterMap_replicate, Item.version?]
  case skipAggregate =>
    rw [itemsOf, List.countP_append, List.countP_append, hnone Item.isSkip fun _ => rfl]
    simp [List.countP_replicate, Item.isSkip]
  case quiet =>
    rw [itemsOf, List.countP_append, List.countP_append, hnone Item.isQuiet fun _ => rfl]
    simp [List.countP_replicate, Item.isQuiet]

/-- Main statement: a command line for several versions that is a row of items, in whatever order, perhaps with a
`--` and more values behind it, is understood exactly as what the items say. So it is understood if no flag is
repeated and there are two values, all of them and all versions being texts, and of the order of the items only
that of the values and that of the versions matters. And every request is what some line says. -/
theorem readBatch_request_iff (name : Bytes) :
    (∀ (items : List Item) (behind : Option (List Bytes)) (raw : RawBatch),
      readBatch (name :: (items.flatMap Item.words ++ Item.ending behind)) = .ok (.request raw) ↔
        Says items (behind.getD []) raw) ∧
    ∀ raw : RawBatch, ∃ words, readBatch (name :: words) = .ok (.request raw) := by
  have hrow (items : List Item) (behind : Option (List Bytes)) (raw : RawBatch) :
      readBatch (name :: (items.flatMap Item.words ++ Item.ending behind)) = .ok (.request raw) ↔
        Says items (behind.getD []) raw := by
    have hclean : Scan.start.Clean Program.batch.grammar := ⟨rfl, rfl, rfl, Nat.zero_le _⟩
    rw [readBatch_eq_request_iff, says_iff]
    exact exists_congr fun found => and_congr_left fun _ => hclean.row_eq_ok_iff items behind
  refine ⟨hrow, fun raw => ⟨_, (hrow (itemsOf raw) (some [raw.sourceDir.bytes, raw.blenderDir.bytes]) raw).2 ?_⟩⟩
  exact says_itemsOf raw

/-- A version may look like an option when it is attached, and a value when it stands behind a `--`. -/
example : readBatch (["all", "--version=--quiet", "-", "--version", "-", "-q", "--", "--version"].map
    Bytes.ofString) = .ok (.request ⟨["--quiet", "-"], false, ⟨"-"⟩, ⟨"--version"⟩, true⟩) := rfl

end StubRelease.CommandLine
