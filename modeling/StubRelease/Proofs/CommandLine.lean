/-
# StubRelease.Proofs.CommandLine -- what the command line for one version accepts

The words of a command line fall apart at the first `--`: before it, a word that begins with a dash and is
not a lone dash is an option, and every other word, with all that follow the `--`, is a positional. Main
statement: a line is understood exactly if its options are at most one quiet flag and its positionals four
texts, and the request then holds these; every other line is answered by a notice or refused
(`readSingle_request_iff`).
-/
import StubRelease.CommandLine.Program

namespace StubRelease

/-- What can be read as text is its UTF-8 form. -/
theorem Bytes.toString?_eq_some_iff {bs : Bytes} {text : String} :
    toString? bs = some text ↔ bs = ofString text := by
  constructor
  · intro h
    exact (ofString_of_toString? h).symm
  · rintro rfl
    exact toString?_ofString text

/-- The longest well-formed beginning is well formed: the empty one always is. -/
theorem Bytes.toString?_textLength (bs : Bytes) :
    toString? (bs.take bs.textLength) = some bs.splitText.1 := by
  have hsome : (toString? (bs.take bs.textLength)).isSome := by
    unfold textLength
    cases hfind : (List.range (bs.length + 1)).reverse.find? fun n => (toString? (bs.take n)).isSome with
    | some n => simpa using List.find?_some hfind
    | none =>
      have hempty := List.find?_eq_none.1 hfind 0 (by simp)
      exact absurd rfl hempty
  obtain ⟨text, htext⟩ := Option.isSome_iff_exists.1 hsome
  rw [splitText, htext, Option.getD_some]

/-- If no ill-formed rest is left, the text is all there was. -/
theorem Bytes.eq_ofString_of_splitText {bs : Bytes} (h : bs.splitText.2 = []) :
    bs = ofString bs.splitText.1 := by
  have htake : bs.take bs.textLength = bs := by
    rw [← List.append_nil (bs.take _), ← h]
    exact List.take_append_drop _ _
  apply toString?_eq_some_iff.1
  rw [← toString?_textLength, htake]

namespace CommandLine

/-! ## Options and positionals -/

/-- The word that ends the options. -/
def endMark : Bytes := Bytes.ofString "--"

/-- A word that begins with a dash and is not a lone dash. -/
def IsOption (bs : Bytes) : Prop := bs.head? = some Word.dash ∧ bs ≠ [Word.dash]

instance (bs : Bytes) : Decidable (IsOption bs) := inferInstanceAs (Decidable (_ ∧ _))

/-- The words before the first `--`. -/
def beforeMark (words : List Bytes) : List Bytes := words.takeWhile (· ≠ endMark)

/-- The words after the first `--`. -/
def afterMark (words : List Bytes) : List Bytes := (words.dropWhile (· ≠ endMark)).tail

/-- The options of a command line. -/
def options (words : List Bytes) : List Bytes := (beforeMark words).filter fun bs => IsOption bs

/-- The positionals of a command line. -/
def positionals (words : List Bytes) : List Bytes :=
  ((beforeMark words).filter fun bs => ¬IsOption bs) ++ afterMark words

variable {bs : Bytes} {rest : List Bytes}

theorem isOption_endMark : IsOption endMark := by decide

theorem options_endMark : options (endMark :: rest) = [] := by
  simp [options, beforeMark]

theorem positionals_endMark : positionals (endMark :: rest) = rest := by
  simp [positionals, beforeMark, afterMark]

theorem options_option (h : IsOption bs) (hne : bs ≠ endMark) : options (bs :: rest) = bs :: options rest := by
  simp [options, beforeMark, h, hne]

theorem positionals_option (h : IsOption bs) (hne : bs ≠ endMark) :
    positionals (bs :: rest) = positionals rest := by
  simp [positionals, beforeMark, afterMark, h, hne]

theorem ne_endMark (h : ¬IsOption bs) : bs ≠ endMark := by
  rintro rfl
  exact h isOption_endMark

theorem options_value (h : ¬IsOption bs) : options (bs :: rest) = options rest := by
  simp [options, beforeMark, h, ne_endMark h]

theorem positionals_value (h : ¬IsOption bs) : positionals (bs :: rest) = bs :: positionals rest := by
  simp [positionals, beforeMark, afterMark, h, ne_endMark h]

/-! ## The kinds of words -/

/-- A word ends the options, is a long option, is a cluster, or is no option at all. -/
theorem ofBytes_cases (bs : Bytes) :
    (bs = endMark ∧ Word.ofBytes bs = .endOfOptions) ∨
    (∃ rest, bs = endMark ++ rest ∧ Word.ofBytes bs = Word.ofLong rest) ∨
    (∃ flags, flags ≠ [] ∧ bs = Word.dash :: flags ∧ Word.ofBytes bs = .cluster flags) ∨
    (¬IsOption bs ∧ Word.ofBytes bs = .value bs) := by
  match bs with
  | [] => exact .inr (.inr (.inr ⟨by decide, rfl⟩))
  | [b] =>
    refine .inr (.inr (.inr ⟨?_, rfl⟩))
    rintro ⟨hb, hne⟩
    obtain rfl : b = Word.dash := Option.some.inj hb
    exact hne rfl
  | b :: c :: rest =>
    simp only [Word.ofBytes]
    by_cases hb : b = Word.dash
    · subst hb
      rw [if_pos rfl]
      by_cases hc : c = Word.dash
      · subst hc
        rw [if_pos rfl]
        cases rest with
        | nil => exact .inl ⟨rfl, rfl⟩
        | cons d rest => exact .inr (.inl ⟨d :: rest, rfl, rfl⟩)
      · rw [if_neg hc]
        exact .inr (.inr (.inl ⟨c :: rest, List.cons_ne_nil _ _, rfl, rfl⟩))
    · rw [if_neg hb]
      refine .inr (.inr (.inr ⟨?_, rfl⟩))
      rintro ⟨hhead, -⟩
      exact hb (Option.some.inj hhead)

/-- A long option without an attached value is all name. -/
theorem ofLong_cases (bs : Bytes) :
    (∃ name attached, Word.ofLong bs = .long name (some attached)) ∨ Word.ofLong bs = .long bs none := by
  unfold Word.ofLong
  split
  · exact .inl ⟨_, _, rfl⟩
  · exact .inr rfl

/-! ## Scans -/

/-- A sequence of steps succeeds by succeeding step by step. -/
theorem bind_eq_ok {ε α β : Type} {x : Except ε α} {f : α → Except ε β} {b : β} :
    (x >>= f) = .ok b ↔ ∃ a, x = .ok a ∧ f a = .ok b := by
  cases x with
  | ok a =>
    constructor
    · intro h
      exact ⟨a, rfl, h⟩
    · rintro ⟨_, ha, h⟩
      cases ha
      exact h
  | error e =>
    constructor
    · nofun
    · nofun

namespace Scan

variable {g : Grammar} {s t : Scan} {found : Found}

theorem values_cons (s : Scan) (bs : Bytes) (rest : List Bytes) :
    values g s (bs :: rest) = (s.addValue g bs >>= fun t => values g t rest) := by
  rw [values]
  cases s.addValue g bs <;> rfl

theorem words_endMark (s : Scan) (rest : List Bytes) :
    words g s (endMark :: rest) = values g { s with waiting := false } rest := rfl

theorem words_cons (s : Scan) {bs : Bytes} (rest : List Bytes) (h : Word.ofBytes bs ≠ .endOfOptions) :
    words g s (bs :: rest) = (s.word g (Word.ofBytes bs) >>= fun t => words g t rest) := by
  simp only [words]
  cases s.word g (Word.ofBytes bs) <;> rfl

/-! ## Scans with something to report -/

/-- A scan with something to report that no value can answer any more. -/
structure Blocked (s : Scan) : Prop where
  pending_isSome : s.pending.isSome = true
  waiting_eq : s.waiting = false

namespace Blocked

theorem settle_ne_ok (h : s.Blocked) : s.settle ≠ .ok t := by
  obtain ⟨refusal, hpending⟩ := Option.isSome_iff_exists.1 h.pending_isSome
  rw [settle, hpending]
  nofun

theorem settle_bind_ne_ok {α : Type} {k : Scan → Except Halt α} {a : α} (h : s.Blocked) :
    (s.settle >>= k) ≠ .ok a := by
  intro heq
  obtain ⟨t, hsettle, -⟩ := bind_eq_ok.1 heq
  exact h.settle_ne_ok hsettle

theorem finish_ne_ok (h : s.Blocked) : s.finish g ≠ .ok found :=
  h.settle_bind_ne_ok

theorem raise_ne_ok (h : s.Blocked) (a : Action) : s.raise a ≠ .ok t :=
  h.settle_bind_ne_ok

theorem addValue_ne_ok (h : s.Blocked) (value : Bytes) : s.addValue g value ≠ .ok t := by
  unfold addValue
  split
  · exact h.settle_bind_ne_ok
  · nofun

theorem long_ne_ok (h : s.Blocked) (name : Bytes) (attached : Option Bytes) :
    s.long g name attached ≠ .ok t := by
  unfold long
  split
  · nofun
  · exact h.settle_bind_ne_ok
  · nofun
  · exact h.raise_ne_ok _

theorem flags_cons_ne_ok (h : s.Blocked) (invalid : Bytes) (c : Char) (rest : List Char) :
    s.flags g invalid (c :: rest) ≠ .ok t := by
  rw [flags]
  split
  · split
    · rename_i hraise
      exact absurd hraise (h.raise_ne_ok _)
    · nofun
  · nofun

/-- A word that is understood does not free a blocked scan: it is one that says nothing. -/
theorem word (h : s.Blocked) {w : Word} (hw : s.word g w = .ok t) : t.Blocked := by
  cases w with
  | endOfOptions =>
    obtain rfl := Except.ok.inj hw
    exact ⟨h.pending_isSome, rfl⟩
  | long name attached => exact absurd hw (h.long_ne_ok name attached)
  | cluster bs =>
    change s.flags g bs.splitText.2 bs.splitText.1.toList = .ok t at hw
    cases htext : bs.splitText.1.toList with
    | nil =>
      rw [htext, flags] at hw
      split at hw
      · obtain rfl := Except.ok.inj hw
        exact h
      · exact nomatch hw
    | cons c rest =>
      rw [htext] at hw
      exact absurd hw (h.flags_cons_ne_ok _ c rest)
  | value bs =>
    have hadd : s.addValue g bs = .ok t := by
      rw [Scan.word, h.waiting_eq] at hw
      exact hw
    exact absurd hadd (h.addValue_ne_ok bs)

theorem values_ne_ok (h : s.Blocked) (rest : List Bytes) :
    (values g s rest >>= finish g) ≠ .ok found := by
  cases rest with
  | nil => exact h.finish_ne_ok
  | cons bs rest =>
    intro hfound
    rw [values_cons, bind_assoc] at hfound
    obtain ⟨t, hadd, -⟩ := bind_eq_ok.1 hfound
    exact h.addValue_ne_ok bs hadd

/-- A blocked scan ends in its report. -/
theorem words_ne_ok (h : s.Blocked) (rest : List Bytes) :
    (words g s rest >>= finish g) ≠ .ok found := by
  induction rest generalizing s with
  | nil => exact h.finish_ne_ok
  | cons bs rest ih =>
    by_cases hend : Word.ofBytes bs = .endOfOptions
    · have hblocked : Blocked { s with waiting := false } := ⟨h.pending_isSome, rfl⟩
      rw [words, hend]
      exact hblocked.values_ne_ok rest
    · intro hfound
      rw [words_cons s rest hend, bind_assoc] at hfound
      obtain ⟨t, hword, hrest⟩ := bind_eq_ok.1 hfound
      exact ih (h.word hword) hrest

end Blocked

/-! ## Scans with nothing to report -/

/-- A scan with nothing to report: it waits for no value, and the values it took are all there. -/
structure Clean (g : Grammar) (s : Scan) : Prop where
  pending_eq : s.pending = none
  waiting_eq : s.waiting = false
  taken_eq : s.taken = s.found.values.length
  taken_le : s.taken ≤ g.positionals.length

/-- A scan that has taken a value. -/
def withValue (s : Scan) (text : String) : Scan :=
  { s with found := { s.found with values := s.found.values ++ [text] }, taken := s.taken + 1 }

namespace Clean

theorem settle_eq (h : s.Clean g) : s.settle = .ok s := by
  obtain ⟨found, pending, waiting, taken⟩ := s
  obtain rfl : pending = none := h.pending_eq
  obtain rfl : waiting = false := h.waiting_eq
  rfl

theorem withValue (h : s.Clean g) (hlt : s.taken < g.positionals.length) (text : String) :
    (s.withValue text).Clean g := by
  have htaken := h.taken_eq
  refine ⟨h.pending_eq, h.waiting_eq, ?_, hlt⟩
  show s.taken + 1 = (s.found.values ++ [text]).length
  rw [List.length_append, List.length_singleton, htaken]

theorem finish_eq_ok_iff (h : s.Clean g) :
    s.finish g = .ok found ↔ s.found.values.length = g.positionals.length ∧ found = s.found := by
  have htaken := h.taken_eq
  have hle := h.taken_le
  rw [finish, h.settle_eq]
  show (if s.taken < g.positionals.length then _ else _) = _ ↔ _
  split
  · constructor
    · nofun
    · rintro ⟨hlength, -⟩
      omega
  · constructor
    · intro hfound
      exact ⟨by omega, (Except.ok.inj hfound).symm⟩
    · rintro ⟨-, rfl⟩
      rfl

theorem addValue_text (h : s.Clean g) (hlt : s.taken < g.positionals.length) (text : String) :
    s.addValue g (Bytes.ofString text) = .ok (s.withValue text) := by
  rw [addValue, if_pos hlt, h.settle_eq, Bytes.toString?_ofString]
  rfl

theorem addValue_of_not_text (h : s.Clean g) {bs : Bytes} (hread : bs.toString? = none)
    (hadd : s.addValue g bs = .ok t) : t.Blocked := by
  rw [addValue, h.settle_eq, hread] at hadd
  split at hadd
  · obtain rfl := Except.ok.inj hadd
    exact ⟨rfl, h.waiting_eq⟩
  · exact nomatch hadd

/-- A clean scan goes on with a value exactly if it is a text and there is room for one. A value that is
not text is reported later, but it is reported. -/
theorem addValue_bind_eq_ok_iff (h : s.Clean g) {bs : Bytes} {k : Scan → Except Halt Found}
    (hk : ∀ t : Scan, t.Blocked → k t ≠ .ok found) :
    (s.addValue g bs >>= k) = .ok found ↔
      s.taken < g.positionals.length ∧ ∃ text, bs = Bytes.ofString text ∧ k (s.withValue text) = .ok found := by
  constructor
  · intro hfound
    obtain ⟨t, hadd, hrest⟩ := bind_eq_ok.1 hfound
    cases hread : bs.toString? with
    | none => exact absurd hrest (hk t (h.addValue_of_not_text hread hadd))
    | some text =>
      obtain rfl := Bytes.toString?_eq_some_iff.1 hread
      by_cases hlt : s.taken < g.positionals.length
      · rw [h.addValue_text hlt] at hadd
        obtain rfl := Except.ok.inj hadd
        exact ⟨hlt, text, rfl, hrest⟩
      · rw [addValue, if_neg hlt] at hadd
        exact nomatch hadd
  · rintro ⟨hlt, text, rfl, hfound⟩
    rw [h.addValue_text hlt]
    exact hfound

end Clean

/-- The words are texts, as many as a scan still has room for, and it has found these as well. -/
def Fills (g : Grammar) (s : Scan) (words : List Bytes) (found : Found) : Prop :=
  ∃ texts : List String, words = texts.map Bytes.ofString ∧
    s.found.values.length + texts.length = g.positionals.length ∧
    found = { s.found with values := s.found.values ++ texts }

theorem Clean.fills_nil (h : s.Clean g) : Fills g s [] found ↔ s.finish g = .ok found := by
  rw [h.finish_eq_ok_iff]
  constructor
  · rintro ⟨texts, htexts, hlength, rfl⟩
    obtain rfl : texts = [] := List.map_eq_nil_iff.1 htexts.symm
    exact ⟨hlength, by rw [List.append_nil]⟩
  · rintro ⟨hlength, rfl⟩
    exact ⟨[], rfl, hlength, by rw [List.append_nil]⟩

theorem Clean.fills_cons (h : s.Clean g) {bs : Bytes} {rest : List Bytes} :
    Fills g s (bs :: rest) found ↔
      s.taken < g.positionals.length ∧
        ∃ text, bs = Bytes.ofString text ∧ Fills g (s.withValue text) rest found := by
  have htaken := h.taken_eq
  constructor
  · rintro ⟨texts, htexts, hlength, rfl⟩
    obtain ⟨text, texts, rfl, rfl, rfl⟩ := List.map_eq_cons_iff.1 htexts.symm
    rw [List.length_cons] at hlength
    refine ⟨by omega, text, rfl, texts, rfl, ?_, ?_⟩
    · show (s.found.values ++ [text]).length + texts.length = _
      rw [List.length_append, List.length_singleton]
      omega
    · simp only [Scan.withValue, List.append_assoc, List.singleton_append]
  · rintro ⟨-, text, rfl, texts, rfl, hlength, rfl⟩
    refine ⟨text :: texts, rfl, ?_, ?_⟩
    · change (s.found.values ++ [text]).length + texts.length = _ at hlength
      rw [List.length_append, List.length_singleton] at hlength
      rw [List.length_cons]
      omega
    · simp only [Scan.withValue, List.append_assoc, List.singleton_append]

/-- After the end of the options every word is a value. -/
theorem Clean.values_eq_ok_iff (h : s.Clean g) (rest : List Bytes) :
    (values g s rest >>= finish g) = .ok found ↔ Fills g s rest found := by
  induction rest generalizing s with
  | nil => exact h.fills_nil.symm
  | cons bs rest ih =>
    rw [values_cons, bind_assoc, h.addValue_bind_eq_ok_iff fun t ht => ht.values_ne_ok rest, h.fills_cons]
    constructor
    · rintro ⟨hlt, text, rfl, hfound⟩
      exact ⟨hlt, text, rfl, (ih (h.withValue hlt text)).1 hfound⟩
    · rintro ⟨hlt, text, rfl, hfills⟩
      exact ⟨hlt, text, rfl, (ih (h.withValue hlt text)).2 hfills⟩

/-! ## The quiet flag -/

/-- A scan that has met the quiet flag. -/
def quieted (s : Scan) : Scan := { s with found := { s.found with quiet := true } }

theorem Clean.quieted (h : s.Clean g) : s.quieted.Clean g :=
  ⟨h.pending_eq, h.waiting_eq, h.taken_eq, h.taken_le⟩

/-- Of the options of the program for one version only the quiet flag lets a scan go on. -/
theorem Clean.raise_eq_ok_iff (h : s.Clean g) {a : Action} (ha : a ∈ Program.single.grammar.longs) :
    s.raise a = .ok t ↔ a = .quiet ∧ s.found.quiet = false ∧ t = s.quieted := by
  rw [raise, h.settle_eq]
  cases a with
  | quiet =>
    show (if s.found.quiet then _ else _) = _ ↔ _
    cases s.found.quiet with
    | true =>
      constructor
      · nofun
      · rintro ⟨-, hquiet, -⟩
        exact nomatch hquiet
    | false =>
      constructor
      · intro ht
        exact ⟨rfl, rfl, (Except.ok.inj ht).symm⟩
      · rintro ⟨-, -, rfl⟩
        rfl
  | showHelp => exact ⟨nofun, nofun⟩
  | showVersion => exact ⟨nofun, nofun⟩
  | skipAggregate => exact absurd ha (by decide)
  | version => exact absurd ha (by decide)

theorem single_long? {name : Bytes} {a : Action} (h : Program.single.grammar.long? name = some a) :
    a ∈ Program.single.grammar.longs ∧ name = Bytes.ofString a.name := by
  have hname := List.find?_some h
  exact ⟨List.mem_of_find?_eq_some h, (beq_iff_eq.1 hname).symm⟩

theorem single_short? {c : Char} {a : Action} (h : Program.single.grammar.short? c = some a) :
    a ∈ Program.single.grammar.longs ∧ (a = .quiet → c = 'q') := by
  obtain ⟨before, after, hshorts, -⟩ := List.lookup_eq_some_iff.1 h
  have hmem : (c, a) ∈ Program.single.grammar.shorts := by
    rw [hshorts]
    exact List.mem_append_right _ List.mem_cons_self
  have hall : ∀ entry ∈ Program.single.grammar.shorts,
      entry.2 ∈ Program.single.grammar.longs ∧ (entry.2 = .quiet → entry.1 = 'q') := by decide
  exact hall _ hmem

theorem Clean.long_eq_ok (h : s.Clean g) {name : Bytes} {attached : Option Bytes}
    (hlong : s.long Program.single.grammar name attached = .ok t) :
    name = Bytes.ofString "quiet" ∧ attached = none ∧ s.found.quiet = false ∧ t = s.quieted := by
  unfold long at hlong
  split at hlong
  · exact nomatch hlong
  · rename_i hname
    exact absurd (single_long? hname).1 (by decide)
  · exact nomatch hlong
  · rename_i a hname
    obtain ⟨hmem, rfl⟩ := single_long? hname
    obtain ⟨rfl, hquiet, rfl⟩ := (h.raise_eq_ok_iff hmem).1 hlong
    exact ⟨rfl, rfl, hquiet, rfl⟩

/-- A cluster is understood if it is a single quiet flag: a second flag of it finds the first one set. -/
theorem Clean.flags_eq_ok (h : s.Clean g) {invalid : Bytes} {chars : List Char}
    (hflags : s.flags Program.single.grammar invalid chars = .ok t) :
    invalid = [] ∧ (chars = [] ∨ chars = ['q'] ∧ s.found.quiet = false ∧ t = s.quieted) := by
  induction chars generalizing s with
  | nil =>
    rw [flags] at hflags
    split at hflags
    · rename_i hempty
      exact ⟨List.isEmpty_iff.1 hempty, .inl rfl⟩
    · exact nomatch hflags
  | cons c rest ih =>
    rw [flags] at hflags
    split at hflags
    · rename_i a hshort
      obtain ⟨hmem, hc⟩ := single_short? hshort
      split at hflags
      · rename_i hraise
        obtain ⟨rfl, hquiet, rfl⟩ := (h.raise_eq_ok_iff hmem).1 hraise
        obtain rfl := hc rfl
        obtain ⟨hinvalid, rfl | ⟨-, hagain, -⟩⟩ := ih h.quieted hflags
        · refine ⟨hinvalid, .inr ⟨rfl, hquiet, ?_⟩⟩
          rw [flags, if_pos (List.isEmpty_iff.2 hinvalid)] at hflags
          exact (Except.ok.inj hflags).symm
        · exact nomatch hagain
      · exact nomatch hflags
    · exact nomatch hflags

/-- The word is a quiet flag. -/
def IsQuiet (bs : Bytes) : Prop := bs = Bytes.ofString "-q" ∨ bs = Bytes.ofString "--quiet"

/-- Where the grammar has it, a quiet flag raises the flag. -/
theorem word_of_isQuiet (hshort : g.short? 'q' = some .quiet)
    (hlong : g.long? (Bytes.ofString "quiet") = some .quiet) (s : Scan) {bs : Bytes} (hbs : IsQuiet bs) :
    s.word g (Word.ofBytes bs) = s.raise .quiet := by
  rcases hbs with rfl | rfl
  · have hword : Word.ofBytes (Bytes.ofString "-q") = .cluster (Bytes.ofString "q") := by decide
    have htext : (Bytes.ofString "q").splitText = ("q", []) := by decide
    rw [hword, word, htext]
    show s.flags g [] ['q'] = s.raise .quiet
    cases hraise : s.raise .quiet with
    | ok t =>
      simp only [flags, hshort, hraise]
      rfl
    | error halt => simp only [flags, hshort, hraise]
  · have hword : Word.ofBytes (Bytes.ofString "--quiet") = .long (Bytes.ofString "quiet") none := by decide
    rw [hword, word]
    simp only [long, hlong]

theorem Clean.word_quiet (h : s.Clean g) (hquiet : s.found.quiet = false) {bs : Bytes} (hbs : IsQuiet bs) :
    s.word Program.single.grammar (Word.ofBytes bs) = .ok s.quieted := by
  rw [word_of_isQuiet rfl (by decide) s hbs]
  exact (h.raise_eq_ok_iff (by decide)).2 ⟨rfl, hquiet, rfl⟩

/-- Before the end of the options, an option lets a scan go on exactly if it is the first quiet flag. -/
theorem Clean.word_eq_ok_iff (h : s.Clean g) {bs : Bytes} (hoption : IsOption bs) (hne : bs ≠ endMark) :
    s.word Program.single.grammar (Word.ofBytes bs) = .ok t ↔
      IsQuiet bs ∧ s.found.quiet = false ∧ t = s.quieted := by
  constructor
  · intro hword
    obtain ⟨hend, -⟩ | ⟨rest, rfl, hlong⟩ | ⟨(flags : Bytes), hflags, rfl, hcluster⟩ | ⟨hvalue, -⟩ :=
      ofBytes_cases bs
    · exact absurd hend hne
    · rw [hlong] at hword
      obtain ⟨name, attached, hkind⟩ | hkind := ofLong_cases rest
      · rw [hkind] at hword
        obtain ⟨-, hattached, -⟩ := h.long_eq_ok hword
        exact nomatch hattached
      · rw [hkind] at hword
        obtain ⟨rfl, -, hquiet, rfl⟩ := h.long_eq_ok hword
        exact ⟨.inr rfl, hquiet, rfl⟩
    · have hscan : s.flags Program.single.grammar flags.splitText.2 flags.splitText.1.toList = .ok t := by
        rw [hcluster] at hword
        exact hword
      obtain ⟨hinvalid, hchars⟩ := h.flags_eq_ok hscan
      have htext := Bytes.eq_ofString_of_splitText hinvalid
      obtain hnone | ⟨hone, hquiet, rfl⟩ := hchars
      · rw [String.toList_eq_nil_iff.1 hnone] at htext
        exact absurd htext hflags
      · have hq : flags.splitText.1 = "q" := String.toList_inj.1 hone
        rw [htext, hq]
        exact ⟨.inl rfl, hquiet, rfl⟩
    · exact absurd hoption hvalue
  · rintro ⟨hquiet, hfirst, rfl⟩
    exact h.word_quiet hfirst hquiet

/-- What a clean scan understands: quiet flags, at most one with the one it has met, and positionals that
fill it. -/
structure Understands (s : Scan) (words : List Bytes) (found : Found) : Prop where
  quiet_only : ∀ bs ∈ options words, IsQuiet bs
  quiet_once : (options words).length + s.found.quiet.toNat ≤ 1
  fills : Fills Program.single.grammar (if options words = [] then s else s.quieted) (positionals words) found

/-- Before the end of the options a word that is no option is a value. -/
theorem Clean.word_value (h : s.Clean g) {bs : Bytes} (hvalue : Word.ofBytes bs = .value bs) :
    s.word g (Word.ofBytes bs) = s.addValue g bs := by
  rw [hvalue, word, h.waiting_eq]
  rfl

theorem ofBytes_eq_endOfOptions {bs : Bytes} (h : Word.ofBytes bs = .endOfOptions) : bs = endMark := by
  obtain ⟨hend, -⟩ | ⟨rest, rfl, hlong⟩ | ⟨flags, -, -, hcluster⟩ | ⟨-, hvalue⟩ := ofBytes_cases bs
  · exact hend
  · obtain ⟨name, attached, hkind⟩ | hkind := ofLong_cases rest
    · exact nomatch h.symm.trans (hlong.trans hkind)
    · exact nomatch h.symm.trans (hlong.trans hkind)
  · exact nomatch h.symm.trans hcluster
  · exact nomatch h.symm.trans hvalue

theorem ofBytes_of_not_isOption {bs : Bytes} (h : ¬IsOption bs) : Word.ofBytes bs = .value bs := by
  obtain ⟨rfl, -⟩ | ⟨rest, rfl, -⟩ | ⟨flags, hflags, rfl, -⟩ | ⟨-, hvalue⟩ := ofBytes_cases bs
  · exact absurd isOption_endMark h
  · exact absurd ⟨rfl, nofun⟩ h
  · exact absurd ⟨rfl, fun hlone => hflags (List.cons.inj hlone).2⟩ h
  · exact hvalue

section Understands

variable {bs : Bytes} {rest : List Bytes}

theorem Clean.understands_nil (h : s.Clean Program.single.grammar) :
    s.Understands [] found ↔ s.finish Program.single.grammar = .ok found := by
  rw [← h.fills_nil]
  constructor
  · intro hu
    exact hu.fills
  · intro hfills
    refine ⟨nofun, ?_, hfills⟩
    cases s.found.quiet <;> decide

theorem understands_endMark :
    s.Understands (endMark :: rest) found ↔ Fills Program.single.grammar s rest found := by
  constructor
  · rintro ⟨-, -, hfills⟩
    rw [options_endMark, positionals_endMark] at hfills
    exact hfills
  · intro hfills
    refine ⟨by rw [options_endMark]; nofun, ?_, by rwa [options_endMark, positionals_endMark]⟩
    rw [options_endMark]
    cases s.found.quiet <;> decide

/-- Once the flag has been met, no other option may follow. -/
theorem understands_option (hoption : IsOption bs) (hne : bs ≠ endMark) :
    s.Understands (bs :: rest) found ↔
      IsQuiet bs ∧ s.found.quiet = false ∧ s.quieted.Understands rest found := by
  constructor
  · rintro ⟨honly, honce, hfills⟩
    rw [options_option hoption hne] at honly honce hfills
    rw [positionals_option hoption hne, if_neg (List.cons_ne_nil _ _)] at hfills
    rw [List.length_cons] at honce
    have hnone : options rest = [] := List.length_eq_zero_iff.1 (by omega)
    have hfirst : s.found.quiet.toNat = 0 := by omega
    refine ⟨honly bs List.mem_cons_self, Bool.toNat_eq_zero.1 hfirst, by rw [hnone]; nofun, ?_, ?_⟩
    · rw [hnone]
      exact Nat.le_refl 1
    · rw [if_pos hnone]
      exact hfills
  · rintro ⟨hbs, hfirst, -, honce, hfills⟩
    have hnone : options rest = [] := List.length_eq_zero_iff.1 (Nat.le_zero.1 (Nat.le_of_succ_le_succ honce))
    rw [if_pos hnone] at hfills
    refine ⟨?_, ?_, ?_⟩
    · rw [options_option hoption hne, hnone]
      intro word hword
      rwa [List.mem_singleton.1 hword]
    · rw [options_option hoption hne, hnone, hfirst]
      exact Nat.le_refl 1
    · rw [options_option hoption hne, positionals_option hoption hne, if_neg (List.cons_ne_nil _ _)]
      exact hfills

theorem Clean.understands_value (h : s.Clean Program.single.grammar) (hoption : ¬IsOption bs) :
    s.Understands (bs :: rest) found ↔ s.taken < Program.single.grammar.positionals.length ∧
      ∃ text, bs = Bytes.ofString text ∧ (s.withValue text).Understands rest found := by
  constructor
  · rintro ⟨honly, honce, hfills⟩
    rw [options_value hoption] at honly honce hfills
    rw [positionals_value hoption] at hfills
    by_cases hnone : options rest = []
    · rw [if_pos hnone] at hfills
      obtain ⟨hlt, text, rfl, hrest⟩ := h.fills_cons.1 hfills
      exact ⟨hlt, text, rfl, honly, honce, by rwa [if_pos hnone]⟩
    · rw [if_neg hnone] at hfills
      obtain ⟨hlt, text, rfl, hrest⟩ := h.quieted.fills_cons.1 hfills
      exact ⟨hlt, text, rfl, honly, honce, by rwa [if_neg hnone]⟩
  · rintro ⟨hlt, text, rfl, honly, honce, hrest⟩
    refine ⟨by rwa [options_value hoption], by rwa [options_value hoption], ?_⟩
    rw [options_value hoption, positionals_value hoption]
    by_cases hnone : options rest = []
    · rw [if_pos hnone] at hrest ⊢
      exact h.fills_cons.2 ⟨hlt, text, rfl, hrest⟩
    · rw [if_neg hnone] at hrest ⊢
      exact h.quieted.fills_cons.2 ⟨hlt, text, rfl, hrest⟩

end Understands

/-- A clean scan reads to the end of the line exactly what it understands. -/
theorem Clean.words_eq_ok_iff (h : s.Clean Program.single.grammar) (words : List Bytes) :
    (Scan.words Program.single.grammar s words >>= finish Program.single.grammar) = .ok found ↔
      s.Understands words found := by
  induction words generalizing s with
  | nil => exact h.understands_nil.symm
  | cons bs rest ih =>
    by_cases hend : bs = endMark
    · subst hend
      have hs : { s with waiting := false } = s := by rw [← h.waiting_eq]
      rw [words_endMark, hs, h.values_eq_ok_iff, understands_endMark]
    have hkind : Word.ofBytes bs ≠ .endOfOptions := fun hkind => hend (ofBytes_eq_endOfOptions hkind)
    rw [words_cons s rest hkind, bind_assoc]
    by_cases hoption : IsOption bs
    · rw [bind_eq_ok, understands_option hoption hend]
      constructor
      · rintro ⟨t, hword, hrest⟩
        obtain ⟨hquiet, hfirst, rfl⟩ := (h.word_eq_ok_iff hoption hend).1 hword
        exact ⟨hquiet, hfirst, (ih h.quieted).1 hrest⟩
      · rintro ⟨hquiet, hfirst, hrest⟩
        exact ⟨s.quieted, h.word_quiet hfirst hquiet, (ih h.quieted).2 hrest⟩
    · rw [h.word_value (ofBytes_of_not_isOption hoption), h.understands_value hoption,
        h.addValue_bind_eq_ok_iff fun t ht => ht.words_ne_ok rest]
      constructor
      · rintro ⟨hlt, text, rfl, hrest⟩
        exact ⟨hlt, text, rfl, (ih (h.withValue hlt text)).1 hrest⟩
      · rintro ⟨hlt, text, rfl, hrest⟩
        exact ⟨hlt, text, rfl, (ih (h.withValue hlt text)).2 hrest⟩

end Scan

/-! ## Whole lines -/

theorem scan_eq_ok_iff {words : List Bytes} {found : Found} :
    Program.single.grammar.scan words = .ok found ↔ Scan.start.Understands words found :=
  Scan.Clean.words_eq_ok_iff ⟨rfl, rfl, rfl, Nat.zero_le _⟩ words

theorem start_understands_iff {words : List Bytes} {found : Found} :
    Scan.start.Understands words found ↔
      (∀ bs ∈ options words, Scan.IsQuiet bs) ∧ (options words).length ≤ 1 ∧
        ∃ texts : List String, positionals words = texts.map Bytes.ofString ∧ texts.length = 4 ∧
          found = ⟨texts, [], decide (options words ≠ []), false⟩ := by
  have hfound : (if options words = [] then Scan.start else Scan.start.quieted).found =
      ⟨[], [], decide (options words ≠ []), false⟩ := by
    by_cases hnone : options words = []
    · rw [if_pos hnone, decide_eq_false (not_not_intro hnone)]
      rfl
    · rw [if_neg hnone, decide_eq_true hnone]
      rfl
  constructor
  · rintro ⟨honly, honce, texts, htexts, hlength, rfl⟩
    rw [hfound] at hlength ⊢
    exact ⟨honly, honce, texts, htexts, (Nat.zero_add _).symm.trans hlength, rfl⟩
  · rintro ⟨honly, honce, texts, htexts, hlength, rfl⟩
    refine ⟨honly, honce, texts, htexts, ?_, ?_⟩
    · rw [hfound]
      exact (Nat.zero_add _).trans hlength
    · rw [hfound]
      rfl

theorem readSingle_eq_request_iff {name : Bytes} {words : List Bytes} {raw : RawRequest} :
    readSingle (name :: words) = .ok (.request raw) ↔
      ∃ found, Program.single.grammar.scan words = .ok found ∧ found.rawRequest = raw := by
  rw [readSingle, Program.read, List.tail_cons]
  cases Program.single.grammar.scan words with
  | ok found => simp
  | error halt => cases halt <;> simp

/-- Main statement: a command line for one version is understood exactly if all its options are quiet flags,
there is one of them at most, and its positionals are four texts; the request holds these in order and is
quiet exactly if there is an option. Every other line is answered by a notice or is an invalid invocation. -/
theorem readSingle_request_iff (name : Bytes) (words : List Bytes) :
    (∀ raw, readSingle (name :: words) = .ok (.request raw) ↔
      (∀ bs ∈ options words, bs = Bytes.ofString "-q" ∨ bs = Bytes.ofString "--quiet") ∧
      (options words).length ≤ 1 ∧
      positionals words = [Bytes.ofString raw.mode, Bytes.ofString raw.version, raw.sourceDir.bytes,
        raw.blenderDir.bytes] ∧
      (raw.quiet = true ↔ options words ≠ [])) ∧
    ((∃ raw, readSingle (name :: words) = .ok (.request raw)) ∨
      (∃ notice, readSingle (name :: words) = .ok (.notice notice)) ∨
      ∃ message, readSingle (name :: words) = .error (.invalidInvocation message) ∧
        (Failure.invalidInvocation message).exitCode = 1) := by
  constructor
  · intro raw
    rw [readSingle_eq_request_iff]
    simp only [scan_eq_ok_iff, start_understands_iff]
    constructor
    · rintro ⟨found, ⟨honly, honce, texts, htexts, hlength, rfl⟩, rfl⟩
      match texts, hlength with
      | [mode, version, source, blender], _ => exact ⟨honly, honce, htexts, decide_eq_true_iff⟩
    · rintro ⟨honly, honce, htexts, hquiet⟩
      refine ⟨_, ⟨honly, honce, [raw.mode, raw.version, raw.sourceDir.text, raw.blenderDir.text], htexts, rfl,
        rfl⟩, ?_⟩
      have hflag : decide (options words ≠ []) = raw.quiet := by
        rw [Bool.eq_iff_iff, decide_eq_true_iff, hquiet]
      rw [hflag]
      rfl
  · unfold readSingle Program.read
    cases Program.single.grammar.scan (name :: words).tail with
    | ok found => exact .inl ⟨_, rfl⟩
    | error halt =>
      cases halt with
      | help => exact .inr (.inl ⟨_, rfl⟩)
      | version => exact .inr (.inl ⟨_, rfl⟩)
      | refused refusal => exact .inr (.inr ⟨_, rfl, rfl⟩)

example : readSingle (["packager", "-", "--", "--", "-q", ""].map Bytes.ofString) =
    .ok (.request ⟨"-", "--", ⟨"-q"⟩, ⟨""⟩, false⟩) := rfl

end CommandLine

end StubRelease
