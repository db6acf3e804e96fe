/-
# StubRelease.Shell.Builtin.Variables -- commands on variables

Commands that set, show and take away variables, and that read fields, rows of lines or options into them.
-/
import StubRelease.Shell.Builtin.Control
import StubRelease.Shell.Builtin.Places

namespace StubRelease.Shell.Builtin

open Eval

/-- Refuses a name no variable may have. -/
def badName (name : Text) (whole : Text) : Eval Unit := do
  if (← get).dialect = .bash then complain ('\x60' :: whole ++ "': not a valid identifier".toList)
  else abort (name ++ ": bad variable name".toList)

/-- The name and the value of an argument. -/
def split (arg : Text) : Text × Option Text :=
  let name := arg.takeWhile (· ≠ '=')
  (name, if name.length < arg.length then some (arg.drop (name.length + 1)) else none)

/-- Refuses options other than the given letters. -/
def refuseOptions (letters : String) (args : List Text) : Eval Unit := do
  match args with
  | ('-' :: c :: _) :: _ =>
    if c ≠ '-' && !letters.toList.contains c then
      if (← get).dialect = .bash then
        complain ('-' :: c :: ": invalid option".toList)
        throw (.fault 2)
      else abort ("Illegal option -".toList ++ [c])
  | _ => pure ()

/-! ## Showing -/

/-- Whether a text has signs that a script would take for something else. -/
def hasSigns : Option Char → Text → Bool
  | _, [] => false
  | before, c :: rest =>
    " \t\n'\"\\|&;()<>!\x7b\x7d*[?]^$\x60".toList.contains c
      || (c = '~' && before.all fun b => b = '=' || b = ':')
      || (c = '#' && before.all Text.isSpace) || hasSigns (some c) rest

/-- A value as a list of all variables has it. -/
def shownPlainly (t : Text) : Text :=
  if !t.all isShown then dollarQuoted t else if hasSigns none t then singlyQuoted t else t

/-- The values of a row, each with its place. -/
def shownRow (v : Variable) : Text :=
  let key (place : Text) : Text := if hasSigns none place then doublyQuoted place else place
  let cells := v.listed.map fun (place, t) => '[' :: key place ++ "]=".toList ++ doublyQuoted t
  '(' :: Text.unwords cells ++ (if v.shape = .keyed && !cells.isEmpty then [' ', ')'] else [')'])

/-- The options of a variable's declaration. -/
def declarationOf (v : Variable) : Text :=
  let marks := v.marks
  "declare -".toList ++ (if marks.isEmpty then ['-'] else marks) ++ [' ']

/-- A variable as a command that declares it. -/
def declaration (name : Text) (v : Variable) : Text :=
  declarationOf v ++ name ++ (match v.shape with
    | .single => (v.value.map fun t => '=' :: doublyQuoted t).getD []
    | .row | .keyed => '=' :: shownRow v)

/-- Prints variables in the order of their names. -/
def showVariables (keep : Variable → Bool) (shown : Text → Variable → Text) : Eval Unit := do
  let kept := (← get).bindings.filter fun v => keep v.2
  for (name, v) in kept.mergeSort (fun a b => Text.notAfter a.1 b.1) do act (Act.printLine (shown name v))

/-- A variable with its value behind a lead, as the standard has it. -/
def shownAfter (lead : String) (name : Text) (v : Variable) : Text :=
  lead.toList ++ name ++ (match v.value with
    | some t => '=' :: quoted t
    | none => [])

/-- A variable as a list of all of them has it, where there are rows. -/
def listedAs (name : Text) (v : Variable) : Text :=
  name ++ '=' :: (if v.shape = .single then shownPlainly (v.value.getD []) else shownRow v)

/-- Prints all variables that have values. -/
def showAll : Eval Unit := do
  match (← get).dialect with
  | .posix => showVariables (·.value.isSome) (shownAfter "")
  | .bash => showVariables (fun v => v.value.isSome || v.shape ≠ .single) listedAs

def setCommand : Builtin := fun _ args => do
  match args with
  | [] =>
    showAll
    return 0
  | _ =>
    match ← setOptions (args.length + 1) args with
    | some args => modify fun s => s.withArguments args
    | none => pure ()
    return 0

/-! ## Declaring -/

/-- Marks variables, giving them values where there are any, as the standard has it. -/
def marking (lead : String) (keep : Variable → Bool) (mark : Variable → Variable) (args : List Text) :
    Eval Nat := do
  refuseOptions "p" args
  let operands := args.dropWhile fun a => a.head? = some '-' && a.length > 1
  if operands.isEmpty then showVariables keep (shownAfter (lead ++ " "))
  else
    for arg in operands do
      let (name, value) := split arg
      if !Text.isName name then badName name arg
      value.forM (assign name)
      modify fun s => s.setVariable name (mark ((s.lookup? name).getD default))
  return 0

/-- What a command that declares variables is asked for. -/
structure Declaring where
  /-- The letters of what is turned on. -/
  on : Text
  /-- The letters of what is turned off. -/
  off : Text
  operands : List Text

namespace Declaring

/-- Reads the options of a command that declares variables. -/
def ofArguments : List Text → Declaring
  | ('-' :: c :: letters) :: rest =>
    if c = '-' then ⟨[], [], rest⟩
    else
      let d := ofArguments rest
      { d with on := c :: letters ++ d.on }
  | ('+' :: c :: letters) :: rest =>
    let d := ofArguments rest
    { d with off := c :: letters ++ d.off }
  | operands => ⟨[], [], operands⟩

/-- A variable with what is asked for, except that it may still be changed. -/
def mark (d : Declaring) (v : Variable) : Variable :=
  let now (letter : Char) (before : Bool) : Bool := (before || d.on.contains letter) && !d.off.contains letter
  let cased (letter : Char) (form : LetterCase) : Bool := now letter (v.letters = some form)
  { v with
    exported := now 'x' v.exported
    isNumber := now 'i' v.isNumber
    isReference := now 'n' v.isReference
    letters := if d.on.contains 'u' then some .upper
      else if d.on.contains 'l' then some .lower
      else if d.on.contains 'c' then some .capitalized
      else if cased 'u' .upper then some .upper
      else if cased 'l' .lower then some .lower
      else if cased 'c' .capitalized then some .capitalized
      else none
    shape := if d.on.contains 'A' then .keyed
      else if d.on.contains 'a' && v.shape = .single then .row
      else v.shape }

/-- Whether a variable is all that is asked for. -/
def isMet (d : Declaring) (v : Variable) : Bool := d.on.all fun c => v.marks.contains c || !"aAinrxclu".toList.contains c

end Declaring

/-- Makes a variable the own one of the function at work; in one dialect it has no value then. -/
def hide (name : Text) : Eval Unit := modify fun s =>
  match s.hidden with
  | frame :: frames =>
    let old := s.lookup? name
    if (frame.lookup name).isSome then s
    else
      let s := { s with hidden := ((name, old) :: frame) :: frames }
      match s.dialect with
      | .bash => s.setVariable name { (default : Variable) with exported := old.any (·.exported) }
      | .posix => s
  | [] => s

/-- Declares a variable, and says whether that could be done. `own` says whether it belongs to the function at
work. -/
def declareOne (d : Declaring) (own : Bool) (arg : Text) : Eval Bool := do
  let (name, value) := split arg
  let adds := value.isSome && name.getLast? = some '+'
  let (base, place) := splitPlace (if adds then name.dropLast else name)
  if !Text.isName base then
    badName name arg
    return false
  else
    if own then hide base
    let s ← get
    let ofReference := d.on.contains 'n' || d.off.contains 'n'
    let target := if ofReference then base else s.meant base
    let before := (s.lookup? target).getD default
    if before.readOnly && (value.isSome || d.off.contains 'r') then
      complain (base ++ ": readonly variable".toList)
      return false
    else
      set (s.setVariable target (d.mark before))
      match value, place with
      | some t, some place => giveAt target (← placeIn target place) adds t
      | some t, none =>
        if d.on.contains 'n' then
          modify fun s => s.setVariable base { (s.lookup? base).getD default with value := some t }
        else give target adds t
      | none, _ => pure ()
      if d.on.contains 'r' then
        modify fun s => s.setVariable target { (s.lookup? target).getD default with readOnly := true }
      return true

/-- Tells of functions by their names, or marks them. -/
def declareFunctions (d : Declaring) : Eval Nat := do
  let s ← get
  let marks := d.on.contains 'x' || d.off.contains 'x' || d.on.contains 'r'
  if d.operands.isEmpty then
    if d.on.contains 'F' then
      for (name, _) in s.functions.mergeSort (fun a b => Text.notAfter a.1 b.1) do
        act (Act.printLine ("declare -f ".toList ++ name))
    return 0
  else
    let known := d.operands.filter fun name => (s.functions.lookup name).isSome
    let mark (f : Function) : Function := { f with
      exported := (f.exported || d.on.contains 'x') && !d.off.contains 'x'
      readOnly := f.readOnly || d.on.contains 'r' }
    if marks then
      set { s with functions := s.functions.map fun (name, f) => (name, if known.contains name then mark f else f) }
      for name in d.operands do
        if !known.contains name then complain (name ++ ": not a function".toList)
    else if d.on.contains 'F' then known.forM fun name => act (Act.printLine name)
    return if known.length = d.operands.length then 0 else 1

/-- Declares variables or shows declarations, where there are rows. -/
def declaring (d : Declaring) (own : Bool) : Eval Nat := do
  let s ← get
  if d.on.contains 'f' || d.on.contains 'F' then declareFunctions d
  else if d.operands.isEmpty then
    if d.on.isEmpty then showAll else showVariables d.isMet declaration
    return 0
  else if d.on.contains 'p' then
    let told ← d.operands.mapM fun name => do
      match s.lookup? name with
      | some v =>
        act (Act.printLine (declaration name v))
        return true
      | none =>
        complain (name ++ ": not found".toList)
        return false
    return if told.all id then 0 else 1
  else
    let made ← d.operands.mapM (declareOne d own)
    return if made.all id then 0 else 1

/-- Declares variables as the shell has it where options are read: a letter is turned on beforehand. -/
def declaringAs (letter : Char) (known : String) (args : List Text) : Eval Nat := do
  refuseOptions known args
  let d := Declaring.ofArguments args
  let undo := d.on.contains 'n'
  let on := d.on.filter (· ≠ 'n')
  declaring { d with on := if undo then on else letter :: on, off := if undo then [letter] else [] } false

def exportCommand : Builtin := fun _ args => do
  match (← get).dialect with
  | .posix => marking "export" (·.exported) (fun v => { v with exported := true }) args
  | .bash => declaringAs 'x' "pnf" args

def readOnlyCommand : Builtin := fun _ args => do
  match (← get).dialect with
  | .posix => marking "readonly" (·.readOnly) (fun v => { v with readOnly := true }) args
  | .bash => declaringAs 'r' "pfaA" args

/-- Declares variables; in a function they are its own. -/
def declare : Builtin := fun name args => do
  let s ← get
  let isLocal := name = "local".toList
  match s.dialect with
  | .posix =>
    if s.hidden.isEmpty then abort "not in a function".toList
    for arg in args do
      let (name, value) := split arg
      if name ≠ ['-'] then
        if !Text.isName name then badName name arg
        hide name
        value.forM (assign name)
    return 0
  | .bash =>
    if isLocal && s.hidden.isEmpty then refuse 1 "can only be used in a function".toList
    else
      refuseOptions "aAfFgiIlnrtucxp" args
      let d := Declaring.ofArguments args
      declaring d (!d.on.contains 'g')

def unset : Builtin := fun _ args => do
  refuseOptions "fvn" args
  let functions := args.contains ['-', 'f']
  let operands := args.filter fun a => !(a.head? = some '-')
  let mut status := 0
  for name in operands do
    let s ← get
    if functions then
      if (s.functions.lookup name).any (·.readOnly) then
        complain (name ++ ": cannot unset: readonly function".toList)
        status := 1
      else set { s with functions := s.functions.filter (·.1 ≠ name) }
    else if args.contains ['-', 'n'] then
      set (s.withoutVariable name)
    else if !Text.isName name then
      if s.dialect = .posix then abort (name ++ ": bad variable name".toList)
      else
        match splitPlace name with
        | (base, some index) =>
          if index = ['@'] || index = ['*'] then forget base
          else
            let place ← placeIn base index
            modify fun s =>
              let base := s.meant base
              match s.lookup? base with
              | some v => s.setVariable base (v.without place)
              | none => s
        | (_, none) => pure ()
    else if s.dialect = .bash && (s.lookup? name).isNone && !args.contains ['-', 'v'] then
      set { s with functions := s.functions.filter (·.1 ≠ name) }
    else forget name
  return status

/-! ## Reading -/

/-- Takes a line off some bytes, dropping escapes unless they are plain: its segments, whether a line end was
found, and how many bytes were taken. Without a delimiter all is taken. -/
def takeLine (plain : Bool) (delimiter : Option Char) : Text → Segments × Bool × Nat
  | [] => ([], false, 0)
  | '\\' :: c :: rest =>
    if plain then
      let (segments, found, n) := takeLine plain delimiter (c :: rest)
      (.glyph '\\' .expanded :: segments, found, n + 1)
    else if c = '\n' then
      let (segments, found, n) := takeLine plain delimiter rest
      (segments, found, n + 2)
    else
      let (segments, found, n) := takeLine plain delimiter rest
      (.glyph c .quoted :: segments, found, n + 2)
  | c :: rest =>
    if some c = delimiter then ([], true, 1)
    else if c = '\\' && !plain then ([], false, 1)
    else
      let (segments, found, n) := takeLine plain delimiter rest
      (.glyph c .expanded :: segments, found, n + 1)

/-- How fields are read. -/
structure Reading where
  /-- Whether escapes stand for themselves. -/
  plain : Bool
  delimiter : Char
  /-- The variable that is given all fields as a row. -/
  row : Option Text
  /-- How many characters are read at most. -/
  limit : Option Nat
  /-- Whether just so many are read, whatever they are. -/
  exact : Bool
  /-- Whether it is only asked if there is something to read. -/
  asks : Bool
  descriptor : Nat
  /-- What is left of the arguments. -/
  operands : List Text

namespace Reading

/-- Takes in an option with an argument. -/
def valued (r : Reading) (letter : Char) (argument : Text) : Reading :=
  match letter with
  | 'a' => { r with row := some argument }
  | 'd' => { r with delimiter := argument.headD '\x00' }
  | 'n' => { r with limit := Text.toNat? argument }
  | 'N' => { r with limit := Text.toNat? argument, exact := true }
  | 't' => { r with asks := argument.all (· = '0') }
  | 'u' => { r with descriptor := (Text.toNat? argument).getD 0 }
  | _ => r

/-- Takes in the letters of an option. -/
def letters (r : Reading) : Text → Reading
  | [] => r
  | c :: more =>
    if "adinNptu".toList.contains c then
      if more.isEmpty then
        match r.operands with
        | argument :: rest => { r.valued c argument with operands := rest }
        | [] => r
      else r.valued c more
    else letters { r with plain := r.plain || c = 'r' } more

/-- Reads the options of reading. -/
def ofArguments : Nat → Reading → Reading
  | 0, r => r
  | n + 1, r =>
    match r.operands with
    | ['-', '-'] :: rest => { r with operands := rest }
    | ('-' :: c :: more) :: rest => ofArguments n (letters { r with operands := rest } (c :: more))
    | _ => r

end Reading

def read : Builtin := fun _ args => do
  let s ← get
  refuseOptions (if s.dialect = .bash then "rpsdtunNaei" else "rp") args
  let r := Reading.ofArguments (args.length + 1) ⟨false, '\n', none, none, false, false, 0, args⟩
  if r.operands.isEmpty && s.dialect = .posix then abort "arg count".toList
  else
    let whole := r.operands.isEmpty
    let names := if whole then ["REPLY".toList] else r.operands
    let isName (name : Text) : Bool := Text.isName (if s.dialect = .bash then (splitPlace name).1 else name)
    if r.asks then return 0
    match names.find? (!isName ·) with
    | some name =>
      badName name name
      return 1
    | none =>
      match ← act (Act.readAll r.descriptor) with
      | .error _ => return 1
      | .ok bytes =>
        let given := Text.ofBytes bytes
        let (segments, found, n) := takeLine r.plain (if r.exact then none else some r.delimiter)
          ((r.limit.map given.take).getD given)
        act (Act.unread r.descriptor (bytes.drop n))
        match r.row with
        | some row => assignRow row ((Segments.fields s.separators segments).map Segments.text)
        | none =>
          let values := if whole || r.exact then [Segments.text segments]
            else Segments.someFields s.separators names.length segments
          for (name, i) in names.zipIdx do
            let value := values.getD i []
            match if s.dialect = .bash then splitPlace name else (name, none) with
            | (base, some index) => giveAt base (← placeIn base index) false value
            | (base, none) => give base false value
        return if found || r.limit.any (n ≥ ·) then 0 else 1

/-- How a row of lines is read. -/
structure RowReading where
  /-- Whether delimiters are dropped. -/
  drops : Bool
  delimiter : Char
  /-- How many lines are read at most; 0 is without a bound. -/
  count : Nat
  skipped : Nat
  /-- The place of the first line, if the row is not emptied before. -/
  origin : Option Nat
  descriptor : Nat
  operands : List Text

namespace RowReading

/-- Takes in an option with an argument. -/
def valued (r : RowReading) (letter : Char) (argument : Text) : RowReading :=
  let n := (Text.toNat? argument).getD 0
  match letter with
  | 'd' => { r with delimiter := argument.headD '\x00' }
  | 'n' => { r with count := n }
  | 's' => { r with skipped := n }
  | 'O' => { r with origin := some n }
  | 'u' => { r with descriptor := n }
  | _ => r

/-- Takes in the letters of an option. -/
def letters (r : RowReading) : Text → RowReading
  | [] => r
  | 't' :: more => letters { r with drops := true } more
  | c :: more =>
    if !more.isEmpty then r.valued c more
    else
      match r.operands with
      | argument :: rest => { r.valued c argument with operands := rest }
      | [] => r

/-- Reads the options; the number bounds them. -/
def ofArguments : Nat → RowReading → RowReading
  | 0, r => r
  | n + 1, r =>
    match r.operands with
    | ['-', '-'] :: rest => { r with operands := rest }
    | ('-' :: c :: more) :: rest => ofArguments n (letters { r with operands := rest } (c :: more))
    | _ => r

end RowReading

/-- Reads lines into a row. -/
def mapfile : Builtin := fun _ args => do
  refuseOptions "dnOstuCc" args
  let r := RowReading.ofArguments (args.length + 1) ⟨false, '\n', 0, 0, none, 0, args⟩
  let name := r.operands.headD "MAPFILE".toList
  if !Text.isName name then
    badName name name
    return 1
  else
    match ← act (Act.readAll r.descriptor) with
    | .error _ => return 1
    | .ok bytes =>
      let given := Text.ofBytes bytes
      let ended := given.getLast? = some r.delimiter
      let lines := Text.splitAt r.delimiter given
      let lines := if ended || given.isEmpty then lines.dropLast else lines
      let whole : List Text := lines.zipIdx.map fun (l, i) => if i + 1 < lines.length || ended then l ++ [r.delimiter] else l
      let last := if r.count = 0 then lines.length else r.skipped + r.count
      act (Act.unread r.descriptor (Text.bytes (whole.drop last).flatten))
      let kept := ((if r.drops then lines else whole).take last).drop r.skipped
      let kept := kept.map fun (t : Text) => t.filter (· ≠ '\x00')
      match r.origin with
      | none => assignRow name kept
      | some origin =>
        for (t, i) in kept.zipIdx do assignAt name (Text.ofNat (origin + i)) t
      return 0

/-! ## Options of a script -/

/-- What an option was found to be: its letter, its argument if it has one, and what is complained of. -/
structure FoundOption where
  letter : Char
  argument : Option Text
  complaint : Option Text

/-- The next option of some words. `place` is the place of the next word, and `letters` is how many letters of the
word before it are read, or 0. What is found, if anything is, comes with the place and the letters to go on
with. -/
def nextOption (spec : Text) (words : List Text) (place letters : Nat) : Option FoundOption × Nat × Nat :=
  let silent := spec.head? = some ':'
  let known := if silent then spec.drop 1 else spec
  let within := (words.getD (place - 2) []).drop letters
  let (rest, place) := if place ≤ 1 || letters = 0 || within.isEmpty then ((none : Option Text), place)
    else (some within, place)
  let begun : Option (Text × Nat) ⊕ Nat := match rest with
    | some rest => .inl (some (rest, place))
    | none =>
      match words[place - 1]? with
      | some ['-', '-'] => .inr (place + 1)
      | some ('-' :: c :: more) => .inl (some (c :: more, place + 1))
      | _ => .inr place
  match begun with
  | .inr place => (none, place, 0)
  | .inl none => (none, place, 0)
  | .inl (some ([], place)) => (none, place, 0)
  | .inl (some (c :: more, place)) =>
    let read := (words.getD (place - 2) []).length - more.length
    let after := (known.dropWhile (· ≠ c)).drop 1
    let goOn (found : FoundOption) : Option FoundOption × Nat × Nat := (some found, place, read)
    if c = ':' || !known.contains c then
      goOn (if silent then ⟨'?', some [c], none⟩ else ⟨'?', none, some ("Illegal option -".toList ++ [c])⟩)
    else if after.head? ≠ some ':' then goOn ⟨c, some [], none⟩
    else if !more.isEmpty then (some ⟨c, some more, none⟩, place, 0)
    else
      match words[place - 1]? with
      | some argument => (some ⟨c, some argument, none⟩, place + 1, 0)
      | none =>
        goOn (if silent then ⟨':', some [c], none⟩
          else ⟨'?', none, some ("No arg for -".toList ++ c :: " option".toList)⟩)

/-- Takes the next option of a script off its arguments, as the standard has it. -/
def standardGetopts : Builtin := fun _ args => do
  refuseOptions "" args
  match args with
  | spec :: name :: given =>
    let s ← get
    let words := if given.isEmpty then s.args else given
    let isBeyond := s.optionIndex > words.length + 1
    let (found, place, letters) := if isBeyond then nextOption spec words 1 0
      else nextOption spec words s.optionIndex s.letters
    match found with
    | some ⟨_, some argument, _⟩ => assign "OPTARG".toList argument
    | some ⟨_, none, complaint⟩ =>
      complaint.forM fun text => act (Act.complain text)
      forget "OPTARG".toList
    | none => pure ()
    assign "OPTIND".toList (Text.ofNat place)
    if !Text.isName name then abort (name ++ ": bad variable name".toList)
    assign name [(found.map (·.letter)).getD '?']
    modify fun s => { s with optionIndex := place, letters }
    return if found.isSome then 0 else 1
  | _ => abort "Usage: getopts optstring var [arg...]".toList

/-- Takes the next option of a script off its arguments, in the other dialect. -/
def otherGetopts : Builtin := fun _ args => do
  match args with
  | spec :: name :: given =>
    let s ← get
    let words := if given.isEmpty then s.args else given
    let index := max 1 (((s.value? "OPTIND".toList).bind Text.toNat?).getD 1)
    let silent := spec.head? = some ':'
    let word := words.getD (index - 1) []
    let finish (letter : Text) (argument : Option Text) (index letters status : Nat) : Eval Nat := do
      assign name letter
      match argument with
      | some t => assign "OPTARG".toList t
      | none => modify fun s => s.withoutVariable "OPTARG".toList
      assign "OPTIND".toList (Text.ofNat index)
      modify fun s => { s with letters }
      return status
    let at' := if s.letters = 0 || word.length ≤ s.letters then 1 else s.letters
    if word.head? ≠ some '-' || word.length ≤ 1 then finish ['?'] none index 0 1
    else if word = ['-', '-'] then finish ['?'] none (index + 1) 0 1
    else
      let c := word.getD at' '?'
      let isLast := at' + 1 ≥ word.length
      let (nextIndex, nextLetters) := if isLast then (index + 1, 0) else (index, at' + 1)
      let after := (spec.dropWhile (· ≠ c)).drop 1
      let known := c ≠ ':' && spec.contains c
      let blame (t : Text) : Eval Unit := do
        let s ← get
        act (Act.complain (s.name ++ ": ".toList ++ t))
      if !known then
        if silent then finish ['?'] (some [c]) nextIndex nextLetters 0
        else
          blame ("illegal option -- ".toList ++ [c])
          finish ['?'] none nextIndex nextLetters 0
      else if after.head? = some ':' then
        if !isLast then finish [c] (some (word.drop (at' + 1))) (index + 1) 0 0
        else
          match words[index]? with
          | some argument => finish [c] (some argument) (index + 2) 0 0
          | none =>
            if silent then finish [':'] (some [c]) (index + 1) 0 0
            else
              blame ("option requires an argument -- ".toList ++ [c])
              finish ['?'] none (index + 1) 0 0
      else finish [c] none nextIndex nextLetters 0
  | _ =>
    act (Act.complain "getopts: usage: getopts optstring name [arg ...]".toList)
    return 2

/-- Takes the next option of a script off its arguments. -/
def getopts : Builtin := fun name args => do
  match (← get).dialect with
  | .posix => standardGetopts name args
  | .bash => otherGetopts name args

end StubRelease.Shell.Builtin
