/-
# StubRelease.Shell.Utility.Editor -- editing lines by a script

The commands of a script are run for every line of the input. They change the line or a second text that is held,
print, and jump to each other.
-/
import StubRelease.Shell.Utility.EditScript
import StubRelease.Shell.Utility.Search

namespace StubRelease.Shell.Utility

open Act

namespace Editor

/-! ## Editing -/

/-- What stays the same while lines are edited. -/
structure Setting where
  /-- Whether lines are printed only when a command asks for it. -/
  quiet : Bool
  /-- What ends a line. -/
  ends : Char
  /-- The width at which shown lines are broken. -/
  width : Nat
  /-- The contents of the files that are read in. -/
  files : List (Text × Text)
  steps : Array Step

/-- A line that may lack its line end. -/
structure Line where
  text : Text
  isEnded : Bool

/-- Where an editor stands. -/
structure Desk where
  pattern : Line
  held : Line
  line : Nat
  /-- The lines that follow. -/
  rest : List Line
  /-- Where the lines of the files begin. -/
  sources : List (Nat × Text)
  /-- What is printed after the line. -/
  later : Text
  /-- Whether something was substituted since the line was read or a jump asked for it. -/
  changed : Bool
  /-- The commands whose range of lines is open, each with the line it ends at, if that is known. -/
  ranges : List (Nat × Option Nat)
  printed : Text
  /-- Whether what was printed last lacks a line end. -/
  lacksEnd : Bool
  written : List (Text × Text)
  /-- The lines that are left of the files that are read line by line. -/
  queues : List (Text × List Text)
  lastRegex : Option (Regex × Bool)
  ended : Option Nat
  /-- Whether an expression was missing. -/
  failed : Bool

namespace Desk

/-- A desk before the first line. -/
def start (held : Line) (sources : List (Nat × Text)) (rest : List Line) : Desk :=
  { pattern := ⟨[], true⟩, held, line := 0, rest, sources, later := [], changed := false, ranges := [], printed := [],
    lacksEnd := false, written := [], queues := [], lastRegex := none, ended := none, failed := false }

/-- Prints a text, after the line end that is lacking. -/
def emit (s : Setting) (d : Desk) (t : Text) : Desk :=
  if t.isEmpty then d
  else { d with printed := d.printed ++ (if d.lacksEnd then [s.ends] else []) ++ t, lacksEnd := false }

/-- Prints a line with the line end it has. -/
def emitLine (s : Setting) (d : Desk) (l : Line) : Desk :=
  let d := { d with printed := d.printed ++ (if d.lacksEnd then [s.ends] else []) ++ l.text, lacksEnd := !l.isEnded }
  if l.isEnded then { d with printed := d.printed ++ [s.ends] } else d

/-- Writes to a file that a command names. -/
def writeTo (s : Setting) (d : Desk) (path : Text) (l : Line) : Desk :=
  if path = "/dev/stdout".toList then d.emitLine s l
  else { d with written := d.written ++ [(path, l.text ++ (if l.isEnded then [s.ends] else []))] }

def isLast (d : Desk) : Bool := d.rest.isEmpty

end Desk

/-- Whether an address chooses the current line. -/
def chooses (d : Desk) : Address → Bool
  | .line n => d.line = n
  | .last => d.isLast
  | .every first step => d.line ≥ first && (d.line - first) % step = 0
  | .found r ignoreCase =>
    match r, d.lastRegex with
    | some r, _ => (r.find? ignoreCase d.pattern.text).isSome
    | none, some (r, ignoreCase) => (r.find? ignoreCase d.pattern.text).isSome
    | none, none => false
  | .more _ | .multiple _ => false

/-- Remembers the expression of an address. -/
def remember (d : Desk) : Option Address → Desk
  | some (.found (some r) ignoreCase) => { d with lastRegex := some (r, ignoreCase) }
  | _ => d

/-- Whether the command at a place is chosen for the current line. -/
def selected (d : Desk) (place : Nat) (s : Step) : Bool × Desk :=
  match s.first, s.second with
  | none, _ => (true, d)
  | some a, none => (chooses d a, remember d (some a))
  | some a, some b =>
    let others := d.ranges.filter (·.1 ≠ place)
    let ending (d : Desk) : Option (Option Nat) := match b with
      | .line n => if n ≤ d.line then none else some (some n)
      | .more n => if n = 0 then none else some (some (d.line + n))
      | .multiple n => if n = 0 then none else some (some (d.line - d.line % n + n))
      | .last => if d.isLast then none else some none
      | _ => some none
    match d.ranges.lookup place with
    | some known =>
      let closes : Bool := match known with
        | some n => n ≤ d.line
        | none => chooses d b
      let passed : Bool := match known, b with
        | some n, .line _ => n < d.line
        | _, _ => false
      (!passed, { d with ranges := if closes then others else d.ranges })
    | none =>
      let zero : Bool := match a with
        | .line 0 => d.line = 1
        | _ => false
      if zero then
        let closes := chooses d b
        (true, { d with ranges := if closes then others else (place, none) :: others })
      else if chooses d a then
        match ending d with
        | some known => (true, remember { d with ranges := (place, known) :: others } (some a))
        | none => (true, remember d (some a))
      else (false, d)

/-- The text of a replacement. -/
def replaced (m : Regex.Match) : List Piece → Option Bool → Option Bool → Text
  | [], _, _ => []
  | .capital upper once :: rest, whole, _ =>
    if once then replaced m rest whole upper else replaced m rest upper none
  | piece :: rest, whole, next =>
    let t := match piece with
      | .text t => t
      | .group 0 => m.text
      | .group n => (m.groups.lookup n).getD []
      | .capital _ _ => []
    let cased (upper : Bool) (c : Char) : Char := if upper then c.toUpper else c.toLower
    let t := match whole with
      | some upper => t.map (cased upper)
      | none => t
    match t, next with
    | c :: cs, some upper => cased upper c :: cs ++ replaced m rest whole none
    | [], _ => replaced m rest whole next
    | t, none => t ++ replaced m rest whole none

/-- Replaces matches from a place on; `count` is the number of the next one. The first number bounds the
steps. -/
def substituted (r : Regex) (ignoreCase : Bool) (ps : List Piece) (all : Bool) (wanted : Nat) (line : Text) :
    Nat → Nat → Nat → Option Nat → Option Text
  | 0, _, _, _ => none
  | n + 1, from', count, last =>
    match r.findFrom? ignoreCase from' line with
    | none => none
    | some m =>
      let start := m.before.length
      let stop := start + m.text.length
      let lead := (line.take start).drop from'
      let more (next : Nat) (count : Nat) (last : Option Nat) : Option Text :=
        if next ≤ line.length then substituted r ignoreCase ps all wanted line n next count last else none
      if m.text.isEmpty && last = some start then
        let skipped := (line.drop start).take 1
        if start < line.length then
          (more (start + 1) count none).map fun t => lead ++ skipped ++ t
        else none
      else if count < wanted then
        let passed := if m.text.isEmpty then (line.drop start).take 1 else m.text
        (more (max stop (start + passed.length)) (count + 1) (some stop)).map fun t => lead ++ passed ++ t
      else
        let put := replaced m ps none none
        if all then
          match more stop (count + 1) (some stop) with
          | some t => some (lead ++ put ++ t)
          | none => some (lead ++ put ++ line.drop stop)
        else some (lead ++ put ++ line.drop stop)

/-- A character in a form that shows what it is. -/
def shownChar (c : Char) : Text :=
  match c with
  | '\\' => ['\\', '\\']
  | '\n' => ['\\', 'n']
  | '\t' => ['\\', 't']
  | '\r' => ['\\', 'r']
  | '\x07' => ['\\', 'a']
  | '\x08' => ['\\', 'b']
  | '\x0c' => ['\\', 'f']
  | '\x0b' => ['\\', 'v']
  | c =>
    if ' ' ≤ c && c ≤ '~' then [c]
    else
      let digits := Nat.toDigits 8 c.toNat
      '\\' :: List.replicate (3 - digits.length) '0' ++ digits

/-- A line in a form that shows its control characters, broken at a width unless that is zero. -/
def shown (width : Nat) (t : Text) : Text :=
  (t.foldl (fun (done, used) c =>
    let next := shownChar c
    if 0 < width && width - 1 < used + next.length then (done ++ '\\' :: '\n' :: next, next.length)
    else (done ++ next, used + next.length)) (([] : Text), 0)).1 ++ ['$']

/-- The place after the block that opens just before a place. -/
def afterBlock (all : Array Step) : Nat → Nat → Nat → Nat
  | 0, place, _ => place
  | n + 1, place, depth =>
    match all[place]? with
    | none => place
    | some s =>
      match s.action with
      | .open => afterBlock all n (place + 1) (depth + 1)
      | .close => if depth = 0 then place + 1 else afterBlock all n (place + 1) (depth - 1)
      | _ => afterBlock all n (place + 1) depth

/-- The place of a label; without a name, and where there is none, the end. -/
def placeOf (all : Array Step) (name : Text) : Nat :=
  if name.isEmpty then all.size
  else (all.findIdx? fun s => match s.action with
    | .label n => n = name
    | _ => false).getD all.size

/-- How a run of the commands over a line ends. -/
inductive Outcome where
  /-- The line is printed, unless printing is off. -/
  | done
  /-- So it is, and it is the last one; it has a line end. -/
  | quit
  /-- The line is dropped. -/
  | dropped
  /-- The first line was dropped, and the commands are run again without reading another one. -/
  | again

/-- Takes the next line. -/
def advance (d : Desk) : Option (Line × Desk) :=
  match d.rest with
  | [] => none
  | l :: rest => some (l, { d with rest, line := d.line + 1 })

/-- Prints what was put off. -/
def flush (s : Setting) (d : Desk) : Desk := { d.emit s d.later with later := [] }

/-- A line with another one after it. -/
def joined (s : Setting) (l next : Line) : Line := ⟨l.text ++ s.ends :: next.text, next.isEnded⟩

/-- The first line of a text of several, which has a line end. -/
def firstOf (s : Setting) (l : Line) : Line := ⟨l.text.takeWhile (· ≠ s.ends), true⟩

/-- Runs the commands from a place on. The number bounds the steps. -/
def run (s : Setting) : Nat → Nat → Desk → Outcome × Desk
  | 0, _, d => (.done, d)
  | n + 1, place, d =>
    match s.steps[place]? with
    | none => (.done, d)
    | some step =>
      let (chosen, d) := selected d place step
      let go (d : Desk) : Outcome × Desk := run s n (place + 1) d
      let jump (name : Text) (d : Desk) : Outcome × Desk := run s n (placeOf s.steps name) d
      if d.failed then (.dropped, { d with ended := some 1 })
      else if chosen = step.negated then
        match step.action with
        | .open => run s n (afterBlock s.steps s.steps.size (place + 1) 0) d
        | _ => go d
      else
        match step.action with
        | .substitute sub =>
          let used := match sub.regex with
            | some r => some (r, sub.ignoreCase)
            | none => d.lastRegex.map fun (r, i) => (r, i || sub.ignoreCase)
          match used with
          | none => (.dropped, { d with failed := true, ended := some 1 })
          | some (r, ignoreCase) =>
            let d := { d with lastRegex := some (r, ignoreCase) }
            let text := d.pattern.text
            match substituted r ignoreCase sub.pieces sub.all sub.number text (2 * text.length + 4) 0 1 none with
            | none => go d
            | some t =>
              let line : Line := { d.pattern with text := t }
              let d := { d with pattern := line, changed := true }
              let d := if sub.prints then d.emitLine s line else d
              let d := match sub.file with
                | some path => d.writeTo s path line
                | none => d
              go d
        | .translate pairs =>
          let text := d.pattern.text.map fun c => (pairs.lookup c).getD c
          go { d with pattern := { d.pattern with text } }
        | .delete => (.dropped, d)
        | .deleteFirst =>
          if d.pattern.text.contains s.ends then
            let text := (d.pattern.text.dropWhile (· ≠ s.ends)).drop 1
            (.again, { d with pattern := { d.pattern with text } })
          else (.dropped, d)
        | .print => go (d.emitLine s d.pattern)
        | .printFirst => go (d.emitLine s (firstOf s d.pattern))
        | .next =>
          let d := flush s (if s.quiet || d.isLast then d else d.emitLine s d.pattern)
          match advance d with
          | some (l, d) => go { d with pattern := l }
          | none => (.done, { d with ended := some 0 })
        | .nextAppended =>
          match advance (flush s d) with
          | some (l, d) => go { d with pattern := joined s d.pattern l }
          | none => (.done, { d with ended := some 0 })
        | .quit code => (.quit, { d with ended := some code })
        | .stop code => (.dropped, { d with ended := some code })
        | .append t => go { d with later := d.later ++ t }
        | .insert t => go (d.emit s t)
        | .change t =>
          let inside := step.second.isSome && (d.ranges.lookup place).isSome
          (.dropped, if inside && !step.negated then d else d.emit s t)
        | .hold => go { d with held := d.pattern }
        | .holdAppended => go { d with held := joined s d.held d.pattern }
        | .get => go { d with pattern := d.held }
        | .getAppended => go { d with pattern := joined s d.pattern d.held }
        | .exchange => go { d with pattern := d.held, held := d.pattern }
        | .number => go (d.emit s (Text.ofNat d.line ++ ['\n']))
        | .fileName =>
          let file := (d.sources.filter (·.1 < d.line)).getLast?
          go (d.emit s (file.elim ['-'] (·.2) ++ ['\n']))
        | .show width => go (d.emit s (shown (width.getD s.width) d.pattern.text ++ ['\n']))
        | .read path => go { d with later := d.later ++ (s.files.lookup path).getD [] }
        | .readLine path =>
          let queue := (d.queues.lookup path).getD (Text.lines ((s.files.lookup path).getD []))
          let queues := (path, queue.drop 1) :: d.queues.filter (·.1 ≠ path)
          go { d with queues, later := d.later ++ queue.head?.elim [] (· ++ [s.ends]) }
        | .write path => go (d.writeTo s path d.pattern)
        | .writeFirst path => go (d.writeTo s path (firstOf s d.pattern))
        | .jump name => jump name d
        | .jumpIf name => if d.changed then jump name { d with changed := false } else go d
        | .jumpUnless name => if d.changed then go { d with changed := false } else jump name d
        | .clear => go { d with pattern := { d.pattern with text := [] } }
        | .label _ | .open | .close | .nothing => go d

/-- Edits line after line. The number bounds the lines. -/
def lines (s : Setting) : Nat → Option Line → Desk → Desk
  | 0, _, d => d
  | n + 1, kept, d =>
    let started : Option Desk := match kept with
      | some l => some { d with pattern := l }
      | none => (advance d).map fun (l, d) => { d with pattern := l, changed := false }
    match started with
    | none => d
    | some d =>
      let (outcome, d) := run s 100000 0 d
      let d := match outcome with
        | .done | .quit => if s.quiet then d else d.emitLine s d.pattern
        | _ => d
      let d := flush s d
      let d := match outcome with
        | .quit => if d.lacksEnd then { d with printed := d.printed ++ [s.ends], lacksEnd := false } else d
        | _ => d
      match d.ended, outcome with
      | some _, _ => d
      | none, .again => lines s n (some d.pattern) d
      | none, _ => lines s n none d

/-- The lines of a text. -/
def linesOf (ends : Char) (t : Text) : List Line :=
  let pieces := Text.splitAt ends t
  let last := (pieces.getLast?).getD []
  pieces.dropLast.map (⟨·, true⟩) ++ (if last.isEmpty then [] else [⟨last, false⟩])

/-- Edits the contents of files as one text, going on with what was held. -/
def edit (s : Setting) (held : Line) (contents : List (Text × Text)) : Desk :=
  let texts := contents.map fun (path, t) => (path, linesOf s.ends t)
  let sources := (texts.foldl (fun (done, n) (path, ls) => (done ++ [(n, path)], n + ls.length))
    (([] : List (Nat × Text)), 0)).1
  let all := texts.flatMap (·.2)
  /- only the last line of all lacks its line end -/
  let all := all.dropLast.map (fun l => { l with isEnded := true }) ++ all.getLast?.toList
  let size := contents.foldl (fun n c => n + c.2.length) 0
  lines s (size + all.length + 2) none (.start held sources all)

end Editor

/-- Edits lines. -/
def sed : Command := fun name args =>
  let flags : List Flag := [.plain "n" ["quiet", "silent"], .valued "e" ["expression"], .valued "f" ["file"],
    .plain "E" ["regexp-extended"], .plain "r" [], ⟨"i", ["in-place"], .attached⟩, .plain "s" ["separate"],
    .plain "u" ["unbuffered"], .plain "z" ["null-data"], .plain "posix" ["posix"], .valued "l" ["line-length"],
    .plain "b" ["binary"], .plain "sandbox" ["sandbox"], .plain "debug" ["debug"],
    .plain "follow" ["follow-symlinks"]]
  /- options are read one by one: a script's file is missed before an unknown option is -/
  let known := (List.range (args.length + 1)).reverse.findSome? fun n =>
    (Arguments.read flags true (args.take n)).toOption
  let run (name : Text) (a : Arguments) : Act Nat := do
    let chunks : List (Except (Text × IoFault) Text) ←
      (a.options.filter fun o => o.1 = "e" || o.1 = "f").mapM fun (key, value) => do
        if key = "e" then return .ok value
        else
          match ← input value with
          | .ok t => return .ok (if t.getLast? = some '\n' then t.dropLast else t)
          | .error fault => return .error (value, fault)
    let bad := chunks.findSome? fun
      | .error fault => some fault
      | .ok _ => none
    match bad with
    | some (path, fault) => refused name 4 ("couldn't open file ".toList ++ path) fault
    | none =>
      let given := chunks.filterMap Except.toOption
      if given.isEmpty && a.operands.isEmpty then
        complain ("Usage: ".toList ++ name ++ " [OPTION]... \x7bscript-only-if-no-other-script\x7d [input-file]...".toList)
        return 1
      else
        let script := if given.isEmpty then a.operands.headD [] else Text.join ['\n'] given
        let paths := if given.isEmpty then a.operands.drop 1 else a.operands
        match Editor.read (Regex.Form.editing (a.has "E" || a.has "r")) script with
        | .error e => failAs name 1 ("-e expression #1, char ".toList ++ Text.ofNat script.length ++ ": ".toList ++ e)
        | .ok steps =>
        match Editor.missingLabel? steps with
        | some label => failAs name 4 ("can't find label for jump to \x60".toList ++ label ++ ['\''])
        | none =>
        if a.has "sandbox" && !(Editor.filesRead steps ++ Editor.filesWritten steps).isEmpty then
          failAs name 1 "-e expression #1: e/r/w commands disabled in sandbox mode".toList
        else
          let files : List (Text × Text) ← (Editor.filesRead steps).mapM fun path => do
            return (path, ((← input path).toOption).getD [])
          let setting : Editor.Setting :=
            { quiet := a.has "n" || Editor.isQuiet script
              ends := if a.has "z" then '\x00' else '\n'
              width := (a.last? "l").elim 70 fun t => Text.number (t.takeWhile Char.isDigit)
              files
              steps := steps.toArray }
          let writeAll (written : List (Text × Text)) : Act Unit :=
            (Editor.filesWritten steps).forM fun path => do
              let t : Text := (written.filter (·.1 = path)).flatMap (·.2)
              if path = "/dev/stderr".toList then
                let _ ← write 2 t.bytes
              else if path ≠ "/dev/stdout".toList then
                let _ ← writeFile path (Text.bytes t)
          let inPlace := a.last? "i"
          let complainOf (path : Text) (fault : IoFault) : Act Nat :=
            if fault = .os .isDirectory then
              if inPlace.isSome then failAs name 4 ("couldn't edit ".toList ++ path ++ ": not a regular file".toList)
              else failAs name 4 ("read error on ".toList ++ path ++ ": Is a directory".toList)
            else refused name 2 ("can't read ".toList ++ path) fault
          let failedIn (d : Editor.Desk) : Act Unit := do
            if d.failed then complain (name ++ ": -e expression #1, char 0: no previous regular expression".toList)
          /- files one after the other, until a command ends it -/
          let rec each (held : Editor.Line) (written : List (Text × Text)) (status : Nat) : List Text → Act Nat
            | [] => do
              writeAll written
              return status
            | path :: rest => do
              match ← input path with
              | .error fault => each held written (max status (← complainOf path fault)) rest
              | .ok t =>
                let d := Editor.edit setting held [(path, t)]
                match inPlace with
                | some ending =>
                  if !ending.isEmpty then
                    let backup := if ending.contains '*' then
                        ending.flatMap fun c => if c = '*' then lastPart path else [c]
                      else path ++ ending
                    let _ ← writeFile backup (Text.bytes t)
                  let left := if d.ended.isSome then d.rest else []
                  let left := left.flatMap fun l => l.text ++ (if l.isEnded then [setting.ends] else [])
                  let _ ← writeFile path (d.printed ++ left).bytes
                | none => print (d.printed ++ (if d.lacksEnd && !rest.isEmpty then [setting.ends] else []))
                failedIn d
                match d.ended with
                | some code =>
                  writeAll (written ++ d.written)
                  return if code ≠ 0 then code else status
                | none => each d.held (written ++ d.written) status rest
          if inPlace.isSome || a.has "s" then each ⟨[], true⟩ [] 0 (if inPlace.isSome then paths else orGiven paths)
          else
            let read ← (orGiven paths).mapM fun path => do
              match ← input path with
              | .ok t => return (some (path, t), 0)
              | .error fault => return (none, ← complainOf path fault)
            let d := Editor.edit setting ⟨[], true⟩ (read.filterMap (·.1))
            print d.printed
            writeAll d.written
            failedIn d
            let status := (read.map (·.2)).foldl max 0
            return match d.ended with
              | some code => if code ≠ 0 then code else status
              | none => status
  do
    let missing ← ((known.map (·.all "f")).getD []).findM? fun path => do
      return !(← input path).isOk
    match missing with
    | some path => run name ⟨[("f", path)], []⟩
    | none => Command.withFlags flags 1 run name args

end StubRelease.Shell.Utility
