/-
# StubRelease.Shell.Interpreter -- running a script

Words are expanded and commands are run in order. How deep commands may stand in each other, and call each
other, is bounded; a script that goes deeper is ended as by a fault of memory. Starting another program is
left to the caller, who bounds how deep programs start each other.
-/
import StubRelease.Shell.Braces
import StubRelease.Shell.Builtin.Table
import StubRelease.Shell.Parser
import StubRelease.Shell.Redirecting
import StubRelease.Shell.Regex

namespace StubRelease.Shell

open Eval

/-- How a part of a script is run. -/
structure Manner where
  /-- Whether somebody looks at the status, so that a failure does not end the shell. -/
  guarded : Bool
  /-- Whether nothing follows in the same shell. -/
  last : Bool

namespace Manner

/-- For what is run for its own sake, with more to follow. -/
def plain : Manner := ⟨false, false⟩

/-- For a condition. -/
def asked : Manner := ⟨true, false⟩

end Manner

/-- How a command is called. -/
structure Calling where
  /-- Whether functions are passed over. -/
  direct : Bool
  /-- Where programs are looked for instead of the usual places. -/
  search : Option Text

namespace Calling

/-- As in a script. -/
def plainly : Calling := ⟨false, none⟩

end Calling

/-- Ends a shell whose commands stand too deep in each other. -/
def tooDeep {α : Type} : Eval α := throw (.killed 11)

/-- Works to an end, and says which. -/
def observe {α : Type} (work : Eval α) : Eval (Except Ending α) :=
  ExceptT.mk (do return .ok (← work.run))

/-! ## Parameters -/

/-- The segments of a value. -/
def shownValue (quoted : Bool) (t : Text) : Segments :=
  if quoted then .mark :: Segments.ofText .quoted t else Segments.ofText .expanded t

/-- The segments of all arguments. `split` says whether each may be a field of its own. -/
def listed (s : State) (name : Text) (split quoted : Bool) (args : List Text) : Segments :=
  if !split then shownValue quoted (Text.join (if name = ['*'] then s.joint else [' ']) args)
  else if quoted && name = ['*'] then shownValue quoted (Text.join s.joint args)
  else [Segment.cut].intercalate (args.map (shownValue quoted))

/-- A word without its first mark, and that mark. -/
def patternAnchor (marks : List Pattern.Mark) : Option Char × List Pattern.Mark :=
  match marks with
  | m :: rest =>
    if !m.literal && (m.char = '#' || m.char = '%') then (some m.char, rest) else (none, marks)
  | [] => (none, [])

/-- A text with parts that match a pattern changed; where not all of them are, an anchor ties the pattern to the
start or the end. -/
def replaceIn (manner : PatternManner) (marks : List Pattern.Mark) (all : Bool) (change : Text → Text) (t : Text) :
    Text :=
  let (anchor, marks) := if all then (none, marks) else patternAnchor marks
  let p := Pattern.read manner marks
  match anchor with
  | some '#' => (((Pattern.cuts t).reverse.find? fun w => p.isMatch w.1).map fun w => change w.1 ++ w.2).getD t
  | some _ => (((Pattern.cuts t).find? fun w => p.isMatch w.2).map fun w => w.1 ++ change w.2).getD t
  | none =>
    if marks.isEmpty then t
    else if t.isEmpty then (if p.isMatch [] then change [] else [])
    else p.replace all change (t.length + 1) t

/-- What a replacement makes of a text it replaces, for which an unquoted sign may stand. -/
def replacement (hasSign : Bool) (segments : Segments) (found : Text) : Text :=
  segments.flatMap fun
    | .glyph c origin => if hasSign && c = '&' && origin ≠ .quoted then found else [c]
    | .mark => []
    | .cut => [' ']

/-- The other case's letter. -/
def otherLetter (c : Char) : Char := if c.isUpper then c.toLower else c.toUpper

/-- A text with its first letter, or all of them, changed, if it is one of some letters. -/
def recase (change : Char → Char) (all : Bool) (among : Char → Bool) (t : Text) : Text :=
  let change (c : Char) : Char := if among c then change c else c
  if all then t.map change
  else
    match t with
    | c :: rest => change c :: rest
    | [] => []

/-- The part of a list from an offset on, of a length; negative ones count from the end. -/
def sliceOf {α : Type} (offset : Int) (length : Option Int) (l : List α) : List α :=
  let size : Int := l.length
  let start := if offset < 0 then size + offset else offset
  if start < 0 then []
  else
    let rest := l.drop start.toNat
    match length with
    | none => rest
    | some n => rest.take (if n < 0 then (size + n - start).toNat else n.toNat)

/-- The part of a row from a place on, of a length; a negative place counts from the end. -/
def sliceOfRow (offset : Int) (length : Option Int) (row : List (Text × Text)) : List Text :=
  let next : Int := ((row.getLast?).map fun x => (Text.number x.1 : Int) + 1).getD 0
  let start := if offset < 0 then next + offset else offset
  if start < 0 then []
  else sliceOf 0 length ((row.filter fun x => start ≤ Text.number x.1).map (·.2))

/-- A value in another form, which a letter stands for. -/
def inForm (letter : Char) (t : Text) : Text :=
  match letter with
  | 'Q' => anyhowQuoted t
  | 'E' => Escape.dollarText t.length t
  | 'U' => recase Char.toUpper true (fun _ => true) t
  | 'L' => recase Char.toLower true (fun _ => true) t
  | 'u' => recase Char.toUpper false (fun _ => true) t
  | _ => t

/-- What gives a variable a value again, in one word after another. -/
def restoring (name : Text) (v : Variable) (value : Text) : Text :=
  (if v.marks.isEmpty then [] else Builtin.declarationOf v) ++ name ++ '=' :: anyhowQuoted value

/-- The places and values of a row as words in quotes. -/
def shownPairs (v : Variable) : Text :=
  let key (place : Text) : Text := if Builtin.hasSigns none place then doublyQuoted place else place
  Text.unwords (v.listed.map fun (place, t) => key place ++ ' ' :: doublyQuoted t)
    ++ (if v.shape = .keyed then [' '] else [])

/-- Arguments as one text, trimmed at its start or end by a pattern that sees no more than one of them at a
time. -/
def trimmedAsOne (p : Pattern) (atStart longest : Bool) (between : Text) (args : List Text) : List Text :=
  let whole := Text.join between args
  let places := List.range (whole.length + 1)
  let seen (t : Text) : Bool := p.isMatch (t.takeWhile (· ≠ '\x00'))
  let left :=
    if atStart then
      ((if longest then places.reverse else places).find? fun i => seen (whole.take i)).map (whole.drop ·)
    else
      ((if longest then places else places.reverse).find? fun i => seen (whole.drop i)).map (whole.take ·)
  Text.splitAt '\x00' (left.getD whole)

/-- Whether a place stands for all of them, and how their values are joined. -/
def everyPlace? (name : Text) (place : Option Word) : Option Text :=
  match place with
  | none => if name = ['@'] || name = ['*'] then some name else none
  | some [.text ['@'] false] => some ['@']
  | some [.text ['*'] false] => some ['*']
  | some _ => none

/-! ## Loops -/

/-- Runs rounds as long as they say so. A round is given the status of the one before and gives its own; the
last one is what the loop ends with. The number bounds the rounds. -/
def rounds (round : Nat → Eval (Bool × Nat)) : Nat → Nat → Eval Nat
  | 0, _ => tooDeep
  | n + 1, status => do
    let (goesOn, status) ← round status
    if goesOn then rounds round n status else return status

/-- How many rounds a loop may have. -/
def roundLimit : Nat := 1000000

/-- Runs the body of a loop once, and says whether the loop goes on. -/
def loopRound (body : Eval Unit) : Eval Bool := do
  match ← observe body with
  | .ok () => return true
  | .error (.leaveLoops n) =>
    if n ≤ 1 then return false else throw (.leaveLoops (n - 1))
  | .error (.nextRound n) =>
    setStatus 0
    if n ≤ 1 then return true else throw (.nextRound (n - 1))
  | .error e => throw e

/-- Does work with one more loop around it. -/
def inLoop (work : Eval Unit) : Eval Unit := do
  modify fun s => { s with loops := s.loops + 1 }
  let result ← observe work
  modify fun s => { s with loops := s.loops - 1 }
  match result with
  | .ok () => pure ()
  | .error e => throw e

/-- Whether a script begins by sleeping, so that what comes after it in the shell comes first. -/
def beginsAsleep : Script → Bool
  | .simple _ _ (word :: _) _ => Word.plain? word = some "sleep".toList
  | .seq first _ | .both first _ | .either first _ => beginsAsleep first
  | .subshell body | .redirect _ body _ => beginsAsleep body
  | _ => false

/-- A process with the machine that another one left; the directory is its own. -/
def Process.after (p : Process) (machine : Machine) : Process :=
  { p with machine := { machine with store := { machine.store with cwd := p.store.cwd } } }

/-- A shell with some descriptors closed. -/
def State.closing (s : State) (descriptors : List Nat) : State :=
  { s with process := { s.process with
      descriptors := s.process.descriptors.filter fun d => !descriptors.contains d.1 } }

/-- A copy of a shell, as a process of its own. -/
def State.copy (s : State) (number : Nat) : State :=
  { s with
    process := { s.process with number, parent := s.process.number }
    inline := false
    loops := if s.dialect = .bash then 0 else s.loops
    traps := s.traps.filter (·.2.isEmpty)
    jobs := []
    readers := []
    depth := s.depth + 1 }

/-! ## Telling what commands are -/

/-- The kinds a command can be of. -/
inductive CommandKind where
  | abbreviation (text : Text)
  | keyword
  | function
  | special
  | builtin
  /-- A program at a path, which was remembered or has just been looked for. -/
  | program (path : Text) (remembered : Bool)
  | unknown

/-- The kind of a command. In one dialect it is enough that a file is there, and a program that is found is
remembered. -/
def kindOf (search : Option Text) (name : Text) : Eval CommandKind := do
  let s ← get
  let bash := s.dialect = .bash
  let key := String.ofList name
  let meant := if s.expandsAliases then s.aliases.lookup name else none
  let isKeyword := Parser.keywords.contains key || (bash && Parser.bashKeywords.contains key)
  let known := (s.remembered.lookup name).map (·.1)
  match meant, isKeyword, known with
  | some text, false, _ => return .abbreviation text
  | some text, true, _ => return if bash then .abbreviation text else .keyword
  | none, true, _ => return .keyword
  | none, false, known =>
    if (s.functions.lookup name).isSome then return .function
    else if Builtin.isSpecial s.dialect key then return .special
    else if Builtin.isBuiltin s.dialect key && !s.disabled.contains name then return .builtin
    else
      match known with
      | some path => return .program path true
      | none =>
        if name.contains '/' && !bash then
          return if s.process.store.present name.bytes then .program name false else .unknown
        else
          let found ← if bash then
              pure (findIn s.process.store (search.getD ((s.value? "PATH".toList).getD [])) name)
            else locate search 0 name
          match found with
          | .ok path =>
            return if programAt s.process.store path = some true then .program path false else .unknown
          | .error _ => return .unknown

/-- Says of what kind a command is, in a sentence or by what it stands for. -/
def tell (sentence : Bool) (name : Text) (kind : CommandKind) : Eval Unit := do
  let d := (← get).dialect
  let bash := d = .bash
  let line (text : String) : Eval Unit :=
    act (Act.printLine (if sentence then name ++ ' ' :: text.toList else name))
  match kind with
  | .abbreviation text =>
    act (Act.printLine (if !sentence then "alias ".toList ++ name ++ '=' :: Builtin.quotedFor d text
      else if bash then name ++ " is aliased to \x60".toList ++ text ++ ['\'']
      else name ++ " is an alias for ".toList ++ text))
  | .keyword => line "is a shell keyword"
  | .function => line (if bash then "is a function" else "is a shell function")
  | .special => line (if bash then "is a shell builtin" else "is a special shell builtin")
  | .builtin => line "is a shell builtin"
  | .program path remembered =>
    act (Act.printLine (if !sentence then path
      else if !remembered then name ++ " is ".toList ++ path
      else if bash then name ++ " is hashed (".toList ++ path ++ [')']
      else name ++ " is a tracked alias for ".toList ++ path))
  | .unknown =>
    if sentence then
      if bash then complain (name ++ ": not found".toList)
      else act (Act.printLine (name ++ ": not found".toList))

/-- Says what a command is, if it is anything. -/
def tellCommand (search : Option Text) (sentence : Bool) (name : Text) : Eval Bool := do
  let kind ← kindOf search name
  tell sentence name kind
  return match kind with
    | .unknown => false
    | _ => true

/-- All programs of a name, where they are found. -/
def programsOf (s : State) (name : Text) : List CommandKind :=
  let paths := if name.contains '/' then [name] else pathsIn ((s.value? "PATH".toList).getD []) name
  (paths.filter fun path => programAt s.process.store path = some true).map (.program · false)

/-- All kinds that a command is of, in the order of their ranks. -/
def kindsOf (s : State) (name : Text) : List CommandKind :=
  let key := String.ofList name
  let meant := if s.expandsAliases then (s.aliases.lookup name).toList else []
  let isKeyword := Parser.keywords.contains key || Parser.bashKeywords.contains key
  meant.map .abbreviation ++ (if isKeyword then [.keyword] else [])
    ++ (if (s.functions.lookup name).isSome then [.function] else [])
    ++ (if Builtin.isBuiltin s.dialect key && !s.disabled.contains name then [.builtin] else [])
    ++ programsOf s name

/-- The word for a kind of commands. -/
def CommandKind.word? : CommandKind → Option String
  | .abbreviation _ => some "alias"
  | .keyword => some "keyword"
  | .function => some "function"
  | .special | .builtin => some "builtin"
  | .program _ _ => some "file"
  | .unknown => none

/-- Tells of what kinds a command is, as some letters ask for it. -/
def tellKinds (letters : Text) (name : Text) : Eval Bool := do
  let has (letter : Char) : Bool := letters.contains letter
  if has 'f' then modify fun s => { s with functions := s.functions.filter (·.1 ≠ name) }
  let s ← get
  let kinds ← if has 'P' then pure (programsOf s name)
    else if has 'a' then pure (kindsOf s name)
    else (do return [← kindOf none name])
  let kinds := kinds.filter fun kind => kind.word?.isSome
  let told := if has 'a' then kinds else kinds.take 1
  for kind in told do
    match kind with
    | .program path _ =>
      if has 'p' || has 'P' then act (Act.printLine path)
      else if has 't' then act (Act.printLine "file".toList)
      else tell true name kind
    | _ =>
      if has 't' then kind.word?.forM fun word => act (Act.printLine word.toList)
      else if !has 'p' then tell true name kind
  if told.isEmpty && !has 't' && !has 'p' && !has 'P' then complain (name ++ ": not found".toList)
  return !told.isEmpty

/-! ## Running -/

/-- Makes a shell ready for a script it is to read: what it is at is set back afterwards. -/
def withCommand {α : Type} (name : Option Text) (work : Eval α) : Eval α := do
  let outer := (← get).command
  modify fun s => { s with command := name }
  let result ← observe work
  modify fun s => { s with command := outer }
  match result with
  | .ok a => return a
  | .error e => throw e

/-- Runs a command of the shell. A fault in one that is not special is only its status. -/
def runBuiltin (special : Bool) (builtin : Builtin) (name : Text) (args : List Text) : Eval Unit := do
  match ← observe (withCommand (some name) (builtin name args)) with
  | .ok status => setStatus status
  | .error (.fault status) =>
    if special && (← get).dialect = .posix then throw (.fault status) else setStatus status
  | .error (.abandon status) => throw (.fault status)
  | .error e => throw e

/-- Whether a command that runs others is given an option it does not have, which it complains of. -/
def refusesOption (name : Text) (known : String) (args : List Text) : Eval Bool := do
  match args, (← get).dialect with
  | ('-' :: c :: _) :: _, dialect =>
    if c = '-' || known.toList.contains c || (dialect = .posix && name = "eval".toList) then return false
    else
      withCommand (some name) (complain (match dialect with
        | .posix => "Illegal option -".toList ++ [c]
        | .bash => '-' :: c :: ": invalid option".toList))
      setStatus 2
      return true
  | _, _ => return false

/-- Whether a command gives variables values; words that do so are not split. -/
def isDeclaration (d : Dialect) (name : Text) : Bool :=
  ["export", "readonly", "local"].contains (String.ofList name)
    || (d = .bash && ["declare", "typeset"].contains (String.ofList name))

/-- Shows a command before it is run. -/
def trace (assignments : List (Text × Text)) (words : List Text) : Eval Unit := do
  let s ← get
  if s.isOn 'x' then
    let lead := (s.value? "PS4".toList).getD "+ ".toList
    let shown (t : Text) : Text :=
      if s.dialect = .posix then t
      else if t.isEmpty || t.any (fun c => !(c.isAlphanum || "_-./:=,+@%^".toList.contains c)) then
        '\'' :: t.flatMap (fun c => if c = '\'' then "'\\''".toList else [c]) ++ ['\'']
      else t
    let given := assignments.map fun (name, value) => name ++ '=' :: shown value
    match s.dialect with
    | .posix => act (Act.complain (lead ++ Text.unwords (given ++ words)))
    | .bash =>
      for line in given do act (Act.complain (lead ++ line))
      if !words.isEmpty then act (Act.complain (lead ++ Text.unwords (words.map shown)))

/-- Runs the lines of a script one after the other. `run` is given whether the line is the last one. -/
def eachLine (run : Bool → Script → Eval Unit) : Nat → Input → Eval Unit
  | 0, _ => pure ()
  | n + 1, input => do
    let s ← get
    let aliases := if s.expandsAliases then s.aliases else []
    let groups := s.choices.contains "extglob"
    match { input with next := s.documents.length, documents := [], aliases, groups }.readLine with
    | .error (fault, line) =>
      modify fun s => { s with line }
      match s.dialect with
      | .posix =>
        complain ("Syntax error: ".toList ++ fault.describe s.dialect)
        throw (.fault 2)
      | .bash =>
        complain ("syntax error ".toList ++ fault.describe s.dialect)
        throw (.exit 2)
    | .ok (none, _) => pure ()
    | .ok (some script, rest) =>
      if s.isOn 'v' then act (do
        let _ ← Act.write 2 (Text.bytes (input.chars.take (input.chars.length - rest.chars.length))))
      modify fun s => { s with documents := s.documents ++ rest.documents }
      match ← observe (run rest.chars.isEmpty script) with
      | .ok () => eachLine run n rest
      | .error (.fault status) =>
        /- a fault ends only the line it is in where the dialect goes on after it -/
        if s.dialect = .bash && s.hidden.isEmpty && s.sourced = 0 && s.process.number = s.shownNumber then
          setStatus status
          eachLine run n rest
        else throw (.fault status)
      | .error e => throw e

/-- A variable with values put at keys, which come before their values where they are not set apart. -/
def pairedIn (v : Variable) : List (Option Text × Text) → Variable
  | [] => v
  | (some key, value) :: rest => pairedIn (v.put key value) rest
  | (none, key) :: (none, value) :: rest => pairedIn (v.put key value) rest
  | (none, key) :: rest => pairedIn (v.put key []) rest

/-- Ends the shell if a failure does. -/
def endIfFailed (m : Manner) : Eval Unit := do
  let s ← get
  if s.isOn 'e' && !m.guarded && s.status ≠ 0 then throw (.exit s.status)

mutual

/-- The segments of a word. `split` says whether it may become several fields. -/
def expandWord (spawn : Spawn) : Nat → Bool → Word → Eval Segments
  | 0, _, _ => tooDeep
  | n + 1, split, word => do
    let parts ← word.mapM fun part => expandPart spawn n split part
    return parts.flatten

/-- The segments of a part of a word. -/
def expandPart (spawn : Spawn) : Nat → Bool → Part → Eval Segments
  | 0, _, _ => tooDeep
  | n + 1, split, part => do
    match part with
    | .text t quoted => return if quoted then shownValue true t else Segments.ofText .literal t
    | .param name place rule orEmpty word second quoted =>
      expandParam spawn n split name place rule orEmpty word second quoted
    | .output script quoted => return shownValue quoted (← capture spawn n script)
    | .file reads script =>
      let stream ← if reads then act (Act.openStream (.sink []))
        else do
          let text ← printed spawn n script
          act (Act.openStream (.source text.bytes))
      let s ← get
      let taken := s.process.descriptors.map (·.1)
      let descriptor := (((List.range 60).map (63 - ·)).find? (!taken.contains ·)).getD 3
      act (Act.attach descriptor stream)
      modify fun s => { s with
        files := descriptor :: s.files
        readers := if reads then (stream, script) :: s.readers else s.readers }
      return shownValue true ("/dev/fd/".toList ++ Text.ofNat descriptor)
    | .arithmetic expression quoted =>
      let value ← Builtin.compute (← textOf spawn n expression)
      return shownValue quoted (Text.ofInt value)

/-- The segments of a parameter, or of the value at a place. -/
def expandParam (spawn : Spawn) : Nat → Bool → Text → Option Word → Rule → Bool → Word → Word → Bool →
    Eval Segments
  | 0, _, _, _, _, _, _, _, _ => tooDeep
  | n + 1, split, name, place, rule, orEmpty, word, second, quoted => do
    let every := everyPlace? name place
    let isList := every.isSome
    let at' ← match place, every with
      | some index, none => (do return some (← Builtin.placeIn name (← textOf spawn n index)))
      | _, _ => pure none
    let s ← get
    let name := if rule = .indirect && (s.lookup? name).any (·.isReference) then name else s.meant name
    if name = "RANDOM".toList then drawNumber
    let s ← get
    let row := if place.isSome then s.rowOf name else []
    let items := if place.isSome then row.map (·.2) else s.args
    let value : Option Text := match place, every, at' with
      /- one dialect takes the list of all arguments for set even if it is empty -/
      | none, some _, _ => if items.isEmpty && s.dialect = .bash then none else some (Text.unwords items)
      | none, none, _ => param? s name
      | some _, some _, _ => if items.isEmpty then none else some (Text.unwords items)
      | some _, none, some at' => row.lookup at'
      | some _, none, none => none
    let isSet := value.any fun v => !(orEmpty && v.isEmpty)
    let all (values : List Text) : Segments := listed s (every.getD name) split quoted values
    let whole : Segments :=
      if !isList then shownValue quoted (value.getD [])
      else if items.isEmpty && quoted && rule ≠ .plain && s.dialect = .posix then [.mark]
      else all items
    /- the word in the parameter's place -/
    let instead : Eval Segments := do
      let segments ← expandWord spawn n split word
      return if quoted then .mark :: segments else segments.asExpanded
    let full := name ++ (at'.map fun t => '[' :: t ++ [']']).getD []
    let wanted : Eval Unit := do
      if value.isNone && !isList && s.isOn 'u' then
        notSet full (if s.dialect = .bash then "unbound variable" else "parameter not set").toList
    let joint := if quoted && name = ['*'] then s.joint else ['\x00']
    let changed (change : Text → Text) : Segments :=
      if isList then all (items.map change) else shownValue quoted (change (value.getD []))
    match rule with
    | .plain =>
      wanted
      return whole
    | .length =>
      wanted
      return shownValue quoted (Text.ofNat (if isList && s.dialect = .bash then items.length
        else (value.getD []).length))
    | .default => if isSet then return whole else instead
    | .alternative => if isSet then instead else return if quoted then [.mark] else []
    | .assign =>
      if isSet then return whole
      else if !Text.isName name then
        if s.dialect = .bash then
          complain ('$' :: name ++ ": cannot assign in this way".toList)
          throw (.fault 1)
        else abort (name ++ ": bad variable name".toList)
      else
        let text := Segments.text (← expandWord spawn n false word)
        match at' with
        | some at' => Builtin.giveAt name at' false text
        | none => Builtin.give name false text
        let s ← get
        return shownValue quoted ((match at' with
          | some at' => (s.rowOf name).lookup at'
          | none => param? s name).getD [])
    | .demand =>
      if isSet then return whole
      else
        let text ← textOf spawn n word
        notSet name (if !text.isEmpty then text
          else match s.dialect, orEmpty with
            | .posix, false | .bash, false => "parameter not set".toList
            | .posix, true => "parameter not set or null".toList
            | .bash, true => "parameter null or not set".toList)
    | .dropStart longest =>
      wanted
      let pattern := Pattern.read (s.patterns "") (Segments.patternMarks (← expandWord spawn n false word))
      if isList && s.dialect = .posix then
        return if items.isEmpty then whole else all (trimmedAsOne pattern true longest joint items)
      return changed (pattern.dropStart longest)
    | .dropEnd longest =>
      wanted
      let pattern := Pattern.read (s.patterns "") (Segments.patternMarks (← expandWord spawn n false word))
      if isList && s.dialect = .posix then
        return if items.isEmpty then whole else all (trimmedAsOne pattern false longest joint items)
      return changed (pattern.dropEnd longest)
    | .slice =>
      wanted
      let text ← textOf spawn n word
      let first := text.takeWhile (· ≠ ':')
      let offset ← Builtin.compute first
      let length ← if first.length < text.length then
          (do return some (← Builtin.compute (text.drop (first.length + 1))))
        else pure none
      if isList then
        return all
          (if place.isSome then sliceOfRow offset length row
           else if offset = 0 then sliceOf 0 length (s.name :: s.args)
           else sliceOf (if offset > 0 then offset - 1 else offset) length s.args)
      else return shownValue quoted (sliceOf offset length (value.getD []))
    | .replace all =>
      wanted
      let marks := Segments.patternMarks (← expandWord spawn n false word)
      let new ← expandWord spawn n false second
      let change := replacement (s.choices.contains "patsub_replacement") new
      if value.isNone then return whole
      else return changed (replaceIn (s.patterns "nocasematch") marks all change)
    | .recase change all =>
      wanted
      let marks := Segments.patternMarks (← expandWord spawn n false word)
      let among (c : Char) : Bool := marks.isEmpty || (Pattern.read (s.patterns "") marks).isMatch [c]
      return changed (recase (match change with
        | .upper => Char.toUpper
        | .lower => Char.toLower
        | .other => otherLetter) all among)
    | .indirect =>
      match value with
      | some other =>
        if (s.lookup? name).any (·.isReference) then return shownValue quoted (s.meant name)
        else
        match Builtin.splitPlace other with
        | (base, some index) =>
          if index = ['@'] || index = ['*'] then
            return listed s index split quoted ((s.rowOf base).map (·.2))
          else return shownValue quoted (((s.rowOf base).lookup (← Builtin.placeIn base index)).getD [])
        | (base, none) => return shownValue quoted ((param? s base).getD [])
      | none => return shownValue quoted []
    | .places => return all (row.map (·.1))
    | .named =>
      let names := (s.bindings.map (·.1)).filter (name.isPrefixOf ·)
      return all (names.mergeSort Text.notAfter)
    | .form letter =>
      wanted
      let v := (s.lookup? name).getD default
      match letter with
      | 'a' => return if isList && place.isSome then all (row.map fun _ => v.marks) else shownValue quoted v.marks
      | 'A' =>
        if value.isNone then return []
        else if !isList then return shownValue quoted (restoring name v (value.getD []))
        else if place.isSome then return shownValue quoted (Builtin.declaration name v)
        else return shownValue quoted ("set -- ".toList ++ Text.unwords (items.map anyhowQuoted))
      | 'K' =>
        if isList && place.isSome then return shownValue quoted (shownPairs v)
        else return changed (inForm 'Q')
      | 'k' =>
        if isList && place.isSome then return all (row.flatMap fun (place, t) => [place, t])
        else return changed (inForm 'Q')
      | _ => if value.isNone then return whole else return changed (inForm letter)
    | .unknown =>
      if s.dialect = .bash then
        complain ("$\x7b".toList ++ name ++ "\x7d: bad substitution".toList)
        throw (.fault 1)
      else abort "Bad substitution".toList

/-- The expansion of a word as one text. -/
def textOf (spawn : Spawn) : Nat → Word → Eval Text
  | 0, _ => tooDeep
  | n + 1, word => do
    let segments ← expandWord spawn n false word
    return segments.text

/-- The fields of words. -/
def fieldsOf (spawn : Spawn) : Nat → List Word → Eval (List Text)
  | 0, _ => tooDeep
  | n + 1, words => do
    let words := if (← get).isOn 'B' then words.flatMap fun w => Word.withBraces (w.length + 1) w else words
    let found ← words.mapM fun word => do
      let segments ← expandWord spawn n true word
      let s ← get
      let fields := segments.fields s.separators
      let has (choice : String) : Bool := s.choices.contains choice
      let manner : Segments.NameManner :=
        ⟨s.dialect = .posix, has "dotglob", has "globstar", s.patterns "nocaseglob"⟩
      if s.isOn 'f' then return fields.map Segments.text
      let names ← fields.mapM fun (field : Segments) => do
        let names := Segments.names s.process.store manner field
        let isNothing := Segments.isPattern manner.patterns.groups field && names = [field.text]
        if isNothing && has "failglob" then
          complain ("no match: ".toList ++ field.text)
          throw (.fault 1)
        return if isNothing && has "nullglob" then [] else names
      return names.flatten
    return found.flatten

/-- The fields of a command. A word that gives a variable a value is one field where the command declares
variables: where its first word says so, or its first field that is not `command`. -/
def commandFields (spawn : Spawn) : Nat → List Word → Eval (List Text)
  | 0, _ => tooDeep
  | n + 1, words => do
    let s ← get
    let plainly := s.dialect = .bash && (words.head?.bind Word.plain?).any (isDeclaration .bash)
    words.foldlM (fun found word => do
      let declares := plainly || (s.dialect = .posix &&
        (found.dropWhile (· = "command".toList)).head?.any (isDeclaration .posix))
      match if declares then Word.declared? s.dialect word else none with
      | some (name, value) => return found ++ [name ++ '=' :: (← textOf spawn n value)]
      | none => return found ++ (← fieldsOf spawn n [word])) []

/-- What a script prints, without the line ends at its end. A script that only reads a file stands for what
is in it, in one dialect. -/
def capture (spawn : Spawn) : Nat → Script → Eval Text
  | 0, _ => tooDeep
  | n + 1, script => do
    let text ← match script, (← get).dialect with
      | .simple _ [] [] [.file 0 .read target], .bash =>
        let path ← textOf spawn n target
        match ← act (Act.readFile path) with
        | .ok bytes =>
          modify fun s => { s with substituted := some 0 }
          pure (Text.ofBytes bytes)
        | .error fault =>
          complain (path ++ ": ".toList ++ Act.reason fault)
          modify fun s => { s with substituted := some 1 }
          pure []
      | _, _ => printed spawn n script
    return Text.dropLineEnds (text.filter (· ≠ '\x00'))

/-- All that a script prints. -/
def printed (spawn : Spawn) : Nat → Script → Eval Text
  | 0, _ => tooDeep
  | n + 1, script => do
    let stream ← act (Act.openStream (.sink []))
    let finish ← apart spawn n ⟨false, true⟩ (do
      act (Act.attach 1 stream)
      if (← get).dialect = .bash then Builtin.setOption 'e' false) script
    mourn finish
    let status := statusOf finish
    modify fun s => { s with
      substituted := some status
      status := if s.dialect = .bash then status else s.status }
    match (← get).process.machine.streams[stream]? with
    | some (.sink bytes) => return Text.ofBytes bytes
    | _ => return []

/-- Runs a script in a copy of the shell that is made ready first. -/
def apart (spawn : Spawn) : Nat → Manner → Eval Unit → Script → Eval Finish
  | 0, _, _, _ => tooDeep
  | n + 1, m, ready, script => do
    finishJobs false
    let _ ← freeSlot
    let number ← act Act.newNumber
    let s ← get
    let work : Eval Unit := do
      ready
      run spawn n m script
    let (result, t) := (toEnd spawn n work).run (s.copy number)
    set { s with process := s.process.after t.process.machine }
    match result with
    | .ok finish => return finish
    | .error _ => return .exited 0

/-- Works to the end of a shell: what it is to do at its end is done, and its jobs are finished. -/
def toEnd (spawn : Spawn) : Nat → Eval Unit → Eval Finish
  | 0, _ => tooDeep
  | n + 1, work => do
    let finish ← match ← observe work with
      | .ok () => pure (Finish.exited ((← get).status % 256))
      | .error (.exit status) | .error (.fault status) | .error (.abandon status)
      | .error (.leaveFunction status) => pure (.exited (status % 256))
      | .error (.leaveLoops _) | .error (.nextRound _) => pure (.exited 0)
      | .error (.killed signal) => pure (.killed signal)
    let s ← get
    let ends := match finish with
      | .exited _ => true
      | .killed signal => s.dialect = .bash && signal ≠ 9
    let finish ← match s.traps.lookup 0 with
      | some action =>
        if !ends then pure finish
        else
          set { s with traps := s.traps.filter (·.1 ≠ 0), status := statusOf finish }
          match ← observe (runText spawn n .plain action) with
          | .error (.exit status) | .error (.fault status) => pure (.exited status)
          | .error (.killed signal) => pure (.killed signal)
          | _ => pure finish
      | none => pure finish
    finishJobs true
    runReaders spawn n true
    return finish

/-- Runs the scripts that read what was written to streams that nothing more can be written to, or all of them. -/
def runReaders (spawn : Spawn) : Nat → Bool → Eval Unit
  | 0, _ => tooDeep
  | n + 1, all => do
    let s ← get
    let isOpen (stream : Nat) : Bool := s.process.descriptors.any (·.2 = stream)
    let (kept, ready) := s.readers.partition fun (stream, _) => !all && isOpen stream
    if !ready.isEmpty then
      set { s with readers := kept }
      for (stream, script) in ready.reverse do
        let bytes := match (← get).process.machine.streams[stream]? with
          | some (.sink bytes) => bytes
          | _ => []
        let _ ← apart spawn n ⟨false, true⟩ (do
          act (Act.attach 0 (← act (Act.openStream (.source bytes))))) script
      setStatus s.status

/-- Does what was set for failures, and ends the shell if a failure does. -/
def afterFailure (spawn : Spawn) : Nat → Manner → Eval Unit
  | 0, _ => tooDeep
  | n + 1, m => do
    let s ← get
    if !m.guarded && s.status ≠ 0 && (s.callers.isEmpty || s.isOn 'E') then
      match s.traps.lookup 65 with
      | some action =>
        set { s with traps := s.traps.filter (·.1 ≠ 65) }
        runText spawn n .plain action
        modify fun t => { t with status := s.status, traps := t.traps ++ [(65, action)] }
      | none => pure ()
    endIfFailed m

/-- Does what was set for every command, before one. -/
def beforeCommand (spawn : Spawn) : Nat → Eval Unit
  | 0 => tooDeep
  | n + 1 => do
    let s ← get
    if s.callers.isEmpty || s.isOn 'T' then
      match s.traps.lookup 67 with
      | some action =>
        set { s with traps := s.traps.filter (·.1 ≠ 67) }
        runText spawn n .plain action
        modify fun t => { t with status := s.status, traps := t.traps ++ [(67, action)] }
      | none => pure ()

/-- Does what was set for the signals that were sent to the shell. -/
def takeSignals (spawn : Spawn) : Nat → Eval Unit
  | 0 => tooDeep
  | n + 1 => do
    let s ← get
    match s.process.machine.signals.find? (·.1 = s.process.number) with
    | none => pure ()
    | some (number, signal) =>
      act (modify fun p => { p with machine := { p.machine with
        signals := p.machine.signals.erase (number, signal) } })
      match (if signal = 9 then none else s.traps.lookup signal) with
      | some action =>
        if !s.deaf.contains signal then
          runText spawn n .plain action
          setStatus s.status
      | none => if signal = 9 || !(harmless ++ s.deaf).contains signal then throw (.killed signal)
      takeSignals spawn n

/-- Reads a text as a script and runs it. -/
def runText (spawn : Spawn) : Nat → Manner → Text → Eval Unit
  | 0, _, _ => tooDeep
  | n + 1, m, text => do
    let s ← get
    let line := s.line
    eachLine (fun isLast script => run spawn n { m with last := m.last && isLast } script) (text.length + 2)
      (Input.start s.dialect text 0)
    modify fun s => { s with line }

/-- A redirection with its words expanded. -/
def bindingOf (spawn : Spawn) : Nat → Redirection → Eval Binding
  | 0, _ => tooDeep
  | n + 1, r => do
    match r with
      | .file descriptor mode target => pure (Binding.file descriptor mode (← textOf spawn n target))
      | .duplicate descriptor source => pure (.duplicate descriptor (← textOf spawn n source))
      | .document descriptor number =>
        pure (.document descriptor (← textOf spawn n (((← get).documents.lookup number).getD [])))
      | .word descriptor word => pure (.document descriptor ((← textOf spawn n word) ++ ['\n']))
      | .both append target => pure (.both append (← textOf spawn n target))
      | .named holder r =>
        let binding ← bindingOf spawn n r
        let s ← get
        match binding with
        | .duplicate _ ['-'] => return .duplicate (Text.number ((param? s holder).getD [])) ['-']
        | _ =>
          let taken := s.process.descriptors.map (·.1)
          let free := (((List.range (taken.length + 1)).map (10 + ·)).find? (!taken.contains ·)).getD 10
          Builtin.give holder false (Text.ofNat free)
          return binding.on free

/-- Makes redirections one after the other, and says whether all could be made. -/
def redirectAll (spawn : Spawn) : Nat → List Redirection → Eval Bool
  | 0, _ => tooDeep
  | _, [] => return true
  | n + 1, r :: rest => do
    let binding ← bindingOf spawn n r
    if ← binding.apply then redirectAll spawn n rest else return false

/-- Does work with redirections, which are undone afterwards. Says whether they could be made. -/
def redirected (spawn : Spawn) : Nat → List Redirection → Eval Unit → Eval Bool
  | 0, _, _ => tooDeep
  | n + 1, rs, work => do
    let saved := (← get).process.descriptors
    let result ← observe (do
      let made ← redirectAll spawn n rs
      if made then work
      return made)
    act (modify fun p => { p with descriptors := saved })
    match result with
    | .ok made =>
      if !made then setStatus (if (← get).dialect = .bash then 1 else 2)
      return made
    | .error e => throw e

/-- Makes assignments one after the other, and gives the values. -/
def assignAll (spawn : Spawn) : Nat → List Assignment → Eval (List (Text × Text))
  | 0, _ => tooDeep
  | n + 1, assignments =>
    assignments.mapM fun assignment => do
      match assignment with
      | .single name none adds word =>
        let value ← textOf spawn n word
        Builtin.give name adds value
        return (name, value)
      | .single name (some index) adds word =>
        let index ← textOf spawn n index
        let value ← textOf spawn n word
        Builtin.giveAt name (← Builtin.placeIn name index) adds value
        return (name ++ '[' :: index ++ [']'], value)
      | .row name adds items =>
        let name := (← get).meant name
        let v := ((← get).lookup? name).getD default
        if v.readOnly then abort (name ++ ": readonly variable".toList)
        let given ← items.mapM fun (place, word) => do
          match place with
          | some place =>
            let index ← textOf spawn n place
            return [(some index, ← Builtin.treated v none (← textOf spawn n word))]
          | none =>
            (← fieldsOf spawn n [word]).mapM fun value => do
              return ((none : Option Text), ← Builtin.treated v none value)
        let given := given.flatten
        let start := if adds then v else v.emptied
        let row : Variable := { start with shape := if v.shape = .keyed then .keyed else .row }
        let row ← if v.shape = .keyed then pure (pairedIn row given)
          else do
            let (row, _) ← given.foldlM (fun (filled : Variable × Nat) (index, value) => do
              let next ← match index with
                | some index => (do
                  let (k, _) ← Builtin.workOut index
                  return k.toNat)
                | none => pure filled.2
              return (filled.1.put (Text.ofNat next) value, next + 1)) (row, row.nextPlace)
            pure row
        modify fun s => s.setVariable name row
        return (name, '(' :: Text.unwords (given.map (·.2)) ++ [')'])

/-- Makes assignments for the time of some work. In one dialect the work is done even if they fail. -/
def assignedFor (spawn : Spawn) : Nat → List Assignment → List Text → Eval Unit → Eval Unit
  | 0, _, _, _ => tooDeep
  | n + 1, assignments, words, work => do
    let s ← get
    let old := assignments.map fun a => (a.name, s.lookup? a.name)
    let moves := assignments.any (·.name = "PATH".toList)
    let made : Eval Unit := do
      let values ← assignAll spawn n assignments
      trace values words
      modify fun s => assignments.foldl (fun (s : State) a =>
        s.setVariable a.name { (s.lookup? a.name).getD default with exported := true }) s
    match ← observe made with
    | .ok () => pure ()
    | .error (.fault status) => if s.dialect = .posix then throw (.fault status)
    | .error e => throw e
    let result ← observe work
    modify fun t =>
      let t := old.foldl (fun (t : State) (name, v) =>
        match v with
        | some v => t.setVariable name v
        | none => t.withoutVariable name) t
      if moves then { t with remembered := s.remembered } else t
    match result with
    | .ok () => pure ()
    | .error e => throw e

/-- Runs a function. -/
def callFunction (spawn : Spawn) : Nat → Manner → Text → Script → List Text → Eval Unit
  | 0, _, _, _, _ => tooDeep
  | n + 1, m, name, body, args => do
    let s ← get
    if s.dialect = .posix && s.hidden.length ≥ 1000 then
      abort "Maximum function recursion depth (1000) reached".toList
    set { s.withArguments args with
      hidden := [] :: s.hidden, callers := (name, s.line) :: s.callers, loops := 0 }
    let result ← observe (run spawn n { m with last := false } body)
    modify fun (t : State) =>
      let frame := t.hidden.headD []
      let t := frame.foldl (fun (t : State) (name, v) =>
        match v with
        | some v => t.setVariable name v
        | none => t.withoutVariable name) t
      let t : State := { t with args := s.args, hidden := s.hidden, callers := s.callers, loops := s.loops }
      if t.dialect = .posix then { t with optionIndex := s.optionIndex, letters := s.letters } else t
    match result with
    | .ok () => pure ()
    | .error (.leaveFunction status) => setStatus status
    | .error e => throw e

/-- Reads a file as a part of the script. -/
def source (spawn : Spawn) : Nat → Manner → List Text → Eval Unit
  | 0, _, _ => tooDeep
  | n + 1, m, args => do
    let s ← get
    match args with
    | [] =>
      if s.dialect = .bash then
        complain "filename argument required".toList
        setStatus 2
      else setStatus 0
    | file :: args =>
      let path := if file.contains '/' then some file
        else
          let dirs := Text.splitAt ':' ((s.value? "PATH".toList).getD [])
          let paths := dirs.map fun (dir : Text) => if dir.isEmpty then file else dir ++ '/' :: file
          match paths.find? fun path => s.process.store.isFile path.bytes with
          | some path => some path
          | none => if s.dialect = .bash then some file else none
      let read ← match path with
        | some path => act (Act.readFile path)
        | none => pure (.error .notFound)
      match read with
      | .error fault =>
        match s.dialect with
        | .posix => abort (Binding.refusal .posix true file fault)
        | .bash =>
          withCommand none (complain (file ++ ": ".toList ++ Act.reason fault))
          setStatus 1
      | .ok bytes =>
        let own := s.dialect = .bash && !args.isEmpty
        modify fun s => { s with sourced := s.sourced + 1, args := if own then args else s.args, status := 0 }
        let result ← observe (withCommand none (runText spawn n { m with last := false } (Text.ofBytes bytes)))
        modify fun t => { t with sourced := s.sourced, args := if own then s.args else t.args }
        match result with
        | .ok () => pure ()
        | .error (.leaveFunction status) => setStatus status
        | .error e => throw e

/-- Runs a command with its arguments. -/
def runNamed (spawn : Spawn) : Nat → Manner → Calling → Text → List Text → Eval Unit
  | 0, _, _, _, _ => tooDeep
  | n + 1, m, calling, name, args => do
    let s ← get
    let key := String.ofList name
    let function := if calling.direct || (s.dialect = .posix && Builtin.isSpecial .posix key) then none
      else s.functions.lookup name
    let passed := s.disabled.contains name
    match function, (Builtin.special? s.dialect key).filter fun _ => !passed,
      (Builtin.regular? s.dialect key).filter fun _ => !passed with
    | some f, _, _ => callFunction spawn n m name f.body args
    | none, some builtin, _ => runBuiltin (!calling.direct) builtin name args
    | none, none, some builtin => runBuiltin false builtin name args
    | none, none, none =>
      if (Builtin.running s.dialect).contains key then
        match key, args with
        | "eval", args =>
          if ← refusesOption name "" args then return
          let args := if s.dialect = .bash && args.head? = some ['-', '-'] then args.drop 1 else args
          setStatus (if args.all List.isEmpty then 0 else s.status)
          let result ← observe (withCommand (if s.dialect = .bash then none else some name)
            (runText spawn n { m with last := false } (Text.unwords args)))
          match result with
          | .ok () => pure ()
          | .error e => throw e
        | "exec", program :: args => withCommand (some name) (replaceBy spawn program args)
        | "exec", [] => setStatus 0
        | "hash", args =>
          let isOwn (s : State) (name : Text) : Bool :=
            (s.functions.lookup name).isSome || Builtin.isBuiltin s.dialect (String.ofList name)
          runBuiltin false (Builtin.hash isOwn) name args
        | "enable", args =>
          runBuiltin false (Builtin.enable fun name => Builtin.isBuiltin s.dialect (String.ofList name)) name args
        | "type", ('-' :: c :: more) :: names =>
          if s.dialect = .bash then
            if ← refusesOption name "aftpP" args then return
            let functions := (← get).functions
            let told ← withCommand (some name) (names.mapM (tellKinds (c :: more)))
            modify fun s => { s with functions }
            setStatus (if told.all id then 0 else 1)
          else
            let told ← withCommand (some name) (args.mapM (tellCommand none true))
            setStatus (if told.all id then 0 else 127)
        | "type", names =>
          let told ← withCommand (some name) (names.mapM (tellCommand none true))
          setStatus (if told.all id then 0 else if s.dialect = .bash then 1 else 127)
        | "command", args | "builtin", args =>
          if ← refusesOption name "pvV" args then return
          let options := args.takeWhile fun a => a.head? = some '-' && a.length > 1
          let letters := options.flatten.filter (· ≠ '-')
          let search := if letters.contains 'p' then some usualPath else none
          match letters.filter (· ≠ 'p'), args.drop options.length with
          | _, [] => setStatus 0
          | [], inner :: rest =>
            if name = "builtin".toList && !Builtin.isBuiltin s.dialect (String.ofList inner) then
              withCommand (some name) (complain (inner ++ ": not a shell builtin".toList))
              setStatus 1
              return
            match ← observe (runNamed spawn n m ⟨true, search⟩ inner rest) with
            | .error (.fault status) =>
              if s.dialect = .posix then setStatus status else throw (.fault status)
            | .error e => throw e
            | .ok () => pure ()
          | letters, names =>
            let sentence := letters.contains 'V'
            let names := if s.dialect = .bash then names else names.take 1
            let told ← withCommand (if sentence then some name else s.command)
              (names.mapM (tellCommand search sentence))
            setStatus (if told.any id then 0 else if s.dialect = .bash then 1 else 127)
        | _, args => withCommand (some name) (source spawn n m args)
      else runProgram spawn m.last calling.search name args

/-- Runs the arms of a choice that are taken, the first of them if `taken`. Says whether there was one. -/
def select (spawn : Spawn) : Nat → Manner → Bool → Text → List (List Word × Script × AfterArm) → Eval Bool
  | 0, _, _, _, _ => tooDeep
  | _, _, _, _, [] => return false
  | n + 1, m, taken, subject, (patterns, body, after) :: rest => do
    let s ← get
    let matched ← if taken then pure true else patterns.anyM fun pattern => do
      let segments ← expandWord spawn n false pattern
      return (Pattern.read (s.patterns "nocasematch") segments.patternMarks).isMatch subject
    if !matched then select spawn n m false subject rest
    else
      match body with
      | .skip => setStatus 0
      | _ => run spawn n m body
      let _ ← match after with
        | .stop => pure true
        | .next => select spawn n m true subject rest
        | .other => select spawn n m false subject rest
      return true

/-- Whether a condition holds. -/
def holds (spawn : Spawn) : Nat → Condition → Eval Bool
  | 0, _ => tooDeep
  | n + 1, condition => do
    match condition with
    | .negate c => return !(← holds spawn n c)
    | .both c d => if ← holds spawn n c then holds spawn n d else return false
    | .either c d => if ← holds spawn n c then return true else holds spawn n d
    | .unary operator x =>
      let text ← textOf spawn n x
      let s ← get
      return Question.unary (Builtin.subject s) operator text
    | .binary x operator y =>
      let left ← textOf spawn n x
      let segments ← expandWord spawn n false y
      let s ← get
      let right := segments.text
      let manner := { s.patterns "nocasematch" with groups := true }
      match String.ofList operator with
      | "=" | "==" => return (Pattern.read manner segments.patternMarks).isMatch left
      | "!=" => return !(Pattern.read manner segments.patternMarks).isMatch left
      | "=~" =>
        let expression := segments.flatMap fun
          | .glyph c .quoted => if c.isAlphanum || c = '\n' then [c] else ['\\', c]
          | .glyph c _ => [c]
          | _ => []
        match Regex.read? .asked expression with
        | some regex =>
          let found := regex.find? (s.choices.contains "nocasematch") left
          let groups := match found with
            | some m =>
              (List.range (regex.groupCount + 1)).map fun i => if i = 0 then m.text else (m.groups.lookup i).getD []
            | none => []
          Builtin.assignRow "BASH_REMATCH".toList groups
          return found.isSome
        | none => throw (.fault 2)
      | "<" => return left < right
      | ">" => return right < left
      | "-eq" | "-ne" | "-lt" | "-le" | "-gt" | "-ge" =>
        let a ← Builtin.compute left
        let b ← Builtin.compute right
        return match String.ofList operator with
          | "-eq" => a = b
          | "-ne" => a ≠ b
          | "-lt" => a < b
          | "-le" => a ≤ b
          | "-gt" => b < a
          | _ => b ≤ a
      | _ =>
        match Question.binary (Builtin.subject s) left operator right with
        | .ok value => return value
        | .error _ => return false

/-- Runs the commands of a pipeline, each with what the one before it printed. -/
def stages (spawn : Spawn) : Nat → Manner → Option Nat → List Script → Eval (List Finish)
  | 0, _, _, _ => tooDeep
  | _, _, _, [] => return []
  | n + 1, m, input, stage :: rest => do
    let takeInput : Eval Unit := match input with
      | some stream => act (Act.attach 0 stream)
      | none => pure ()
    if rest.isEmpty && (← get).choices.contains "lastpipe" then
      let saved := (← get).process.descriptors
      takeInput
      run spawn n { m with last := false } stage
      act (modify fun p => { p with descriptors := saved })
      return [.exited (← get).status]
    else if rest.isEmpty then return [← apart spawn n { m with last := true } takeInput stage]
    else
      let sink ← act (Act.openStream (.sink []))
      let finish ← apart spawn n { m with last := true } (do
        takeInput
        act (Act.attach 1 sink)) stage
      let bytes := match (← get).process.machine.streams[sink]? with
        | some (.sink bytes) => bytes
        | _ => []
      let next ← act (Act.openStream (.source bytes))
      return finish :: (← stages spawn n m (some next) rest)

/-- Runs a simple command whose words are expanded. -/
def runSimple (spawn : Spawn) : Nat → Manner → List Assignment → Text → List Text → List Redirection →
    Eval Unit
  | 0, _, _, _, _, _ => tooDeep
  | n + 1, m, assignments, name, args, rs => do
    let s ← get
    let key := String.ofList name
    let isPosix := s.dialect = .posix
    let special := isPosix && Builtin.isSpecial .posix key
    if key = "exec" && args.isEmpty then
      let _ ← assignAll spawn n assignments
      trace [] (name :: args)
      let made ← redirectAll spawn n rs
      if made then setStatus 0
      else if isPosix then throw (.fault 2)
      else setStatus 1
    else
      let work : Eval Unit :=
        if special && (key ≠ "exec") then do
          let values ← assignAll spawn n assignments
          trace values (name :: args)
          runNamed spawn n m .plainly name args
        else assignedFor spawn n assignments (name :: args) (runNamed spawn n m .plainly name args)
      let made ← redirected spawn n rs work
      if !made && special then throw (.fault 2)

/-- Runs a script. -/
def run (spawn : Spawn) : Nat → Manner → Script → Eval Unit
  | 0, _, _ => tooDeep
  | n + 1, m, script => do
    match script with
    | .skip => pure ()
    | .simple line assignments words rs =>
      let files := (← get).files
      modify fun s => { s with line }
      beforeCommand spawn n
      modify fun s => { s with substituted := none }
      let fields ← commandFields spawn n words
      match fields with
      | [] =>
        let made ← redirected spawn n rs (do
          let values ← assignAll spawn n assignments
          trace values [])
        if made then setStatus ((← get).substituted.getD 0)
      | name :: args =>
        if (← get).isOn 'n' then pure () else runSimple spawn n m assignments name args rs
      modify fun s => { s.closing (s.files.filter (!files.contains ·)) with
        piped := [s.status], files, lastWord := (fields.getLast?).getD [] }
      runReaders spawn n false
      takeSignals spawn n
      afterFailure spawn n m
    | .redirect line body rs =>
      modify fun s => { s with line }
      let _ ← redirected spawn n rs (run spawn n { m with last := false } body)
    | .seq first second =>
      run spawn n { m with last := m.last && (match second with
        | .skip => true
        | _ => false) } first
      run spawn n m second
    | .both first second =>
      run spawn n .asked first
      if (← get).status = 0 then run spawn n m second
    | .either first second =>
      run spawn n .asked first
      if (← get).status ≠ 0 then run spawn n m second
    | .negate body =>
      run spawn n .asked body
      setStatus (if (← get).status = 0 then 1 else 0)
    | .pipe scripts =>
      let finishes ← stages spawn n m none scripts
      let last := finishes.getLast?.getD (.exited 0)
      finishes.forM mourn
      let failed := (finishes.reverse.find? fun f => statusOf f ≠ 0).getD last
      setStatus (statusOf (if (← get).isOn '|' then failed else last))
      modify fun s => { s with piped := finishes.map statusOf }
      takeSignals spawn n
      afterFailure spawn n m
    | .background body =>
      let number ← act Act.newNumber
      let s ← get
      let work (machine : Machine) : Finish × Machine :=
        let start := { s with process := s.process.after machine, jobs := [] }
        let (finish, t) := (apart spawn n ⟨false, true⟩ (do
          let null ← act (Act.openStream .null)
          act (Act.attach 0 null)) body).run start
        let finish := match finish with
          | .ok finish => finish
          | .error _ => .exited 0
        (finish, { t.process.machine with store := { t.process.machine.store with cwd := machine.store.cwd } })
      let slot ← freeSlot
      let commands := match body with
        | .pipe scripts => scripts.length
        | _ => 1
      let job : Job := ⟨slot, number, .waiting (beginsAsleep body) work, false, commands⟩
      modify fun s => { s with jobs := job :: s.jobs, lastJob := some number }
      setStatus 0
    | .choose condition yes no =>
      run spawn n .asked condition
      if (← get).status = 0 then run spawn n m yes
      else
        match no with
        | .skip => setStatus 0
        | _ => run spawn n m no
    | .case line subject arms =>
      modify fun s => { s with line }
      beforeCommand spawn n
      if !(← select spawn n m false (← textOf spawn n subject) arms) then setStatus 0
    | .each line name items body =>
      modify fun s => { s with line }
      let values ← fieldsOf spawn n items
      setStatus 0
      if !Text.isName name then
        complain ('\x60' :: name ++ "': not a valid identifier".toList)
        setStatus 1
      else inLoop (values.foldlM (fun goesOn value => do
        if goesOn then
          beforeCommand spawn n
          match ← observe (Builtin.give name false value) with
          | .error (.fault status) =>
            if (← get).dialect = .posix then throw (.fault status)
            setStatus status
            return false
          | .error e => throw e
          | .ok () => loopRound (run spawn n { m with last := false } body)
        else return false) true *> pure ())
    | .menu line name items body =>
      modify fun s => { s with line }
      let values ← fieldsOf spawn n items
      setStatus 0
      if !values.isEmpty then
        inLoop (do
          let round (shows : Nat) : Eval (Bool × Nat) := do
            let s ← get
            if shows = 1 then
              for (value, i) in values.zipIdx do
                act (Act.complain (Text.ofNat (i + 1) ++ ") ".toList ++ value))
            let _ ← act (Act.write 2 (Text.bytes ((s.value? "PS3".toList).getD "#? ".toList)))
            let status ← Builtin.read "read".toList []
            if status ≠ 0 then
              act (Act.print ['\n'])
              setStatus 1
              return (false, 0)
            let reply := ((← get).value? "REPLY".toList).getD []
            if reply.isEmpty then return (true, 1)
            else
              let place := (Text.toNat? reply).getD 0
              Builtin.give name false (if place = 0 then [] else values.getD (place - 1) [])
              return (← loopRound (run spawn n { m with last := false } body), 0)
          let _ ← rounds round roundLimit 1)
    | .cycle wanted condition body =>
      inLoop (do
        let round (status : Nat) : Eval (Bool × Nat) := do
          if !(← loopRound (run spawn n .asked condition)) then return (false, 0)
          else if ((← get).status = 0) ≠ wanted then return (false, status)
          else
            let goesOn ← loopRound (run spawn n { m with last := false } body)
            return (goesOn, (← get).status)
        setStatus (← rounds round roundLimit 0))
    | .counted line start check step body =>
      modify fun s => { s with line }
      let working (expression : Word) (empty : Int) : Eval Int := do
        let text ← textOf spawn n expression
        if text.all Text.isSpace then return empty else Builtin.compute text
      let _ ← working start 0
      setStatus 0
      inLoop (do
        let round (status : Nat) : Eval (Bool × Nat) := do
          if (← working check 1) = 0 then return (false, status)
          else
            let goesOn ← loopRound (run spawn n { m with last := false } body)
            let status := (← get).status
            if goesOn then
              let _ ← working step 0
            return (goesOn, status)
        setStatus (← rounds round roundLimit 0))
    | .subshell body =>
      let finish ← apart spawn n { m with last := true } (pure ()) body
      mourn finish
      setStatus (statusOf finish)
      takeSignals spawn n
      afterFailure spawn n m
    | .define name body source =>
      let old := (← get).functions.lookup name
      if old.any (·.readOnly) then
        complain (name ++ ": readonly function".toList)
        setStatus 1
      else
        modify fun s =>
          let f : Function := ⟨body, source, old.any (·.exported), false⟩
          { s with functions := (name, f) :: s.functions.filter (·.1 ≠ name) }
        setStatus 0
    | .compute line expression =>
      modify fun s => { s with line }
      beforeCommand spawn n
      let text ← textOf spawn n expression
      match ← observe (Builtin.compute text) with
      | .ok value => setStatus (if value = 0 then 1 else 0)
      | .error (.fault status) => setStatus status
      | .error e => throw e
      afterFailure spawn n m
    | .check line condition =>
      modify fun s => { s with line }
      beforeCommand spawn n
      match ← observe (holds spawn n condition) with
      | .ok answer => setStatus (if answer then 0 else 1)
      | .error (.fault status) => setStatus status
      | .error e => throw e
      afterFailure spawn n m

end

end StubRelease.Shell
