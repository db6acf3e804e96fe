/-
# StubRelease.Shell.Utility.Starting -- commands that start others

Commands that start another program with a changed environment, with arguments that are given to them, or
for a limited time. Most of them end as the program does that they start.
-/
import StubRelease.Shell.Utility.Printing

namespace StubRelease.Shell

/-- A program: it is given the name it is called by and its arguments, and says how it ended. -/
abbrev Program := Text → List Text → Act Finish

/-- A command as a program. -/
def Program.ofCommand (command : Command) : Program := fun name args => do
  return .exited (← command name args)

namespace Utility

open Act

/-- The shell of programs that do not name their interpreter. -/
def plainShell : Text := "/bin/sh".toList

/-- Runs a program in the place of this one; a missing one is complained of. -/
def become (spawn : Spawn) (name : Text) (lead : Text) (words : List Text) : Act Finish := do
  match words with
  | [] => return .exited 0
  | program :: args =>
    match ← launchNamed spawn plainShell program args with
    | .ok finish => return finish
    | .error e =>
      let status ← failAs name (if e = .notFound then 127 else 126)
        (lead ++ quote program ++ ": ".toList ++ e.describe.toList)
      return .exited status

/-- Words of a text; quotes and backslashes keep blanks in them. -/
def splitWords : Nat → Option Text → Text → List Text
  | 0, current, _ => current.toList
  | _, current, [] => current.toList
  | n + 1, current, c :: rest =>
    let add (t : Text) : Option Text := some (current.getD [] ++ t)
    if c = '\'' || c = '"' then
      splitWords n (add (rest.takeWhile (· ≠ c))) ((rest.dropWhile (· ≠ c)).drop 1)
    else if c = '\\' then splitWords n (add (rest.take 1)) (rest.drop 1)
    else if Text.isSpace c then current.toList ++ splitWords n none rest
    else splitWords n (add [c]) rest

/-! ## Environments -/

/-- Options of a changed environment, read up to the first word that is none. -/
structure EnvironmentChange where
  cleared : Bool
  removed : List Text
  dir : Option Text
  ending : Char
  words : List Text

/-- Reads the options of a changed environment. -/
def EnvironmentChange.read : Nat → List Text → Except UsageFault EnvironmentChange
  | 0, words => .ok ⟨false, [], none, '\n', words⟩
  | n + 1, words =>
    match words with
    | ['-'] :: rest => (read n rest).map fun c => { c with cleared := true }
    | ['-', '-'] :: rest => .ok ⟨false, [], none, '\n', rest⟩
    | ('-' :: _) :: _ =>
      let flags : List Flag := [.plain "i" ["ignore-environment"], .plain "0" ["null"],
        .valued "u" ["unset"], .valued "C" ["chdir"], .valued "S" ["split-string"],
        .plain "v" ["debug"], .plain "help" ["help"], .plain "version" ["version"]]
      match Arguments.read flags false words with
      | .error fault => .error fault
      | .ok a =>
        match a.last? "S" with
        | some t => read n (splitWords (t.length + 1) none t ++ a.operands)
        | none =>
          .ok {
            cleared := a.has "i" || a.operands.head? = some ['-']
            removed := a.all "u"
            dir := a.last? "C"
            ending := if a.has "0" then '\x00' else '\n'
            words := if a.operands.head? = some ['-'] then a.operands.drop 1 else a.operands }
    | _ => .ok ⟨false, [], none, '\n', words⟩

/-- The name and the value of an argument that changes the environment. -/
def setting? (word : Text) : Option (Text × Text) :=
  let name := word.takeWhile (· ≠ '=')
  if name.length < word.length then some (name, word.drop (name.length + 1)) else none

/-- Shows the environment, or runs a program in a changed one. -/
def env (spawn : Spawn) : Program := fun name args => do
  match EnvironmentChange.read (args.length + 2) args with
  | .error fault => return .exited (← misused name 125 fault.describe)
  | .ok c =>
    let settings := (c.words.takeWhile fun w => (setting? w).isSome).filterMap setting?
    let words := c.words.drop settings.length
    modify fun p =>
      let kept := if c.cleared then [] else p.environment.filter fun v => !c.removed.contains v.1
      { p with environment := settings.foldl (fun e (n, v) =>
          if e.any (·.1 = n) then e.map (fun (w : Text × Text) => if w.1 = n then (n, v) else w)
          else e ++ [(n, v)]) kept }
    let moved ← match c.dir with
      | some dir => files (do
          let place ← Files.ask (·.placeOf true dir.bytes)
          if (← get).isDir dir.bytes then modify ({ · with cwd := place }) else Files.refuse .notDirectory)
      | none => pure (.ok ())
    match moved with
    | .error fault =>
      return .exited (← failAs name 125
        ("cannot change directory to ".toList ++ quote (c.dir.getD []) ++ ": ".toList ++ reason fault))
    | .ok () =>
      if words.isEmpty then
        (← get).environment.forM fun (n, v) => print (n ++ '=' :: v ++ [c.ending])
        return .exited 0
      else
        let finish ← become spawn name [] words
        let hasBlank := words.head?.any fun w => w.any Text.isBlank
        if finish = .exited 127 && hasBlank then
          complain (name ++ ": use -[v]S to pass options in shebang lines".toList)
        return finish

/-! ## Arguments from input -/

/-- The items of an input. -/
def itemsOf (delimiter : Option Char) (wholeLines : Bool) (t : Text) : List Text :=
  match delimiter with
  | some c => if t.isEmpty then [] else Text.splitAt c (if t.getLast? = some c then t.dropLast else t)
  | none =>
    if wholeLines then
      ((Text.lines t).map fun line => line.dropWhile Text.isBlank).filter (!·.isEmpty)
    else splitWords (t.length + 1) none t

/-- Items in groups of a size. The number bounds the groups. -/
def groups (size : Nat) : Nat → List Text → List (List Text)
  | 0, _ => []
  | _, [] => []
  | n + 1, items => items.take (max 1 size) :: groups size n (items.drop (max 1 size))

/-- Puts a text in place of another one. -/
def substitute (old new : Text) : Nat → Text → Text
  | 0, t => t
  | _, [] => []
  | n + 1, c :: rest =>
    if !old.isEmpty && old.isPrefixOf (c :: rest) then new ++ substitute old new n ((c :: rest).drop old.length)
    else c :: substitute old new n rest

/-- Runs a program with arguments that are given as input. -/
def xargs (spawn : Spawn) : Program := fun name args => do
  let flags : List Flag := [.valued "n" ["max-args"], .valued "I" [], ⟨"i", ["replace"], .attached⟩,
    .plain "0" ["null"], .valued "d" ["delimiter"], .plain "r" ["no-run-if-empty"], .plain "t" ["verbose"],
    .valued "P" ["max-procs"], .valued "a" ["arg-file"], .valued "L" ["max-lines"], .valued "s" ["max-chars"],
    .valued "E" [], .plain "x" ["exit"], .plain "p" ["interactive"], .plain "o" ["open-tty"],
    .plain "help" ["help"], .plain "version" ["version"]]
  match Arguments.read flags false args with
  | .error fault => return .exited (← misused name 1 fault.describe)
  | .ok a =>
    let given ← match a.last? "a" with
      | some path => readFile path
      | none => readAll 0
    match given with
    | .error fault =>
      return .exited (← refused name 1 ("Cannot open input file ".toList ++ quote ((a.last? "a").getD [])) fault)
    | .ok bytes =>
      let delimiter := if a.has "0" then some '\x00' else
        match a.last? "d" with
        | some ['\\', 'n'] => some '\n'
        | some ['\\', '0'] => some '\x00'
        | some ['\\', 't'] => some '\t'
        | some (c :: _) => some c
        | _ => none
      let token := match a.last? "I", a.last? "i" with
        | some t, _ => some t
        | none, some t => some (if t.isEmpty then ['\x7b', '\x7d'] else t)
        | none, none => none
      let items := itemsOf delimiter token.isSome (Text.ofBytes bytes)
      let words := if a.operands.isEmpty then ["echo".toList] else a.operands
      let calls := match token with
        | some t => items.map fun item => words.take 1
            ++ (words.drop 1).map fun (w : Text) => substitute t item (w.length + 1) w
        | none =>
          if items.isEmpty then if a.has "r" then [] else [words]
          else
            let size := ((a.last? "n").orElse fun _ => a.last? "L").bind Text.toNat?
            (groups (size.getD items.length) (items.length + 1) items).map (words ++ ·)
      let input ← openStream .null
      let mut status := 0
      let mut ended := false
      for call in calls do
        if !ended then
          if a.has "t" then complain (Text.unwords call)
          let saved := (← get).descriptors
          attach 0 input
          let program := call.headD []
          let result ← launchNamed spawn plainShell program (call.drop 1)
          modify fun p => { p with descriptors := saved }
          match result with
          | .ok (.exited 0) => pure ()
          | .ok (.exited 255) =>
            status := ← failAs name 124 (program ++ ": exited with status 255; aborting".toList)
            ended := true
          | .ok (.exited _) => status := 123
          | .ok (.killed signal) =>
            status := ← failAs name 125 (program ++ ": terminated by signal ".toList ++ Text.ofNat signal)
            ended := true
          | .error e =>
            status := ← failAs name (if e = .notFound then 127 else 126)
              (program ++ ": ".toList ++ e.describe.toList)
            ended := true
      return .exited status

/-! ## Time and standing -/

/-- The thousandth parts of a second that a time stands for. -/
def milliseconds? (t : Text) : Option Nat :=
  let body := t.takeWhile fun c => c.isDigit || c = '.'
  let unit := match t.drop body.length with
    | [] | ['s'] => some 1
    | ['m'] => some 60
    | ['h'] => some 3600
    | ['d'] => some 86400
    | _ => none
  let whole := body.takeWhile Char.isDigit
  let part := (body.drop (whole.length + 1)).take 3
  if body.isEmpty || body = ['.'] || !part.all Char.isDigit then none
  else unit.map fun u =>
    u * (Text.number whole * 1000 + Text.number (part ++ List.replicate (3 - part.length) '0'))

/-- Waits, which takes no time here. -/
def sleep : Command := .withFlags [] 1 fun name a => do
  if a.operands.isEmpty then lacksOperand name 1
  else
    let bad := a.operands.filter fun t => t ≠ "infinity".toList && (milliseconds? t).isNone
    if bad.isEmpty then return 0
    else
      bad.forM fun t => complain (name ++ ": invalid time interval ".toList ++ quote t)
      tryHelp name
      return 1

/-- Runs a program for a limited time; only one that does nothing but wait can take longer. -/
def timeout (spawn : Spawn) : Program := fun name args => do
  let flags : List Flag := [.valued "s" ["signal"], .valued "k" ["kill-after"], .plain "v" ["verbose"],
    .plain "preserve-status" ["preserve-status"], .plain "foreground" ["foreground"],
    .plain "help" ["help"], .plain "version" ["version"]]
  match Arguments.read flags false args with
  | .error fault => return .exited (← misused name 125 fault.describe)
  | .ok a =>
    match a.operands with
    | limit :: program :: rest =>
      match milliseconds? limit with
      | none => return .exited (← misused name 125 ("invalid time interval ".toList ++ quoteArgument limit))
      | some most =>
        let slept := (rest.map fun t => (milliseconds? t).getD 0).foldl (· + ·) 0
        if lastPart program = "sleep".toList && most < slept && most > 0 then return .exited 124
        else
          match ← become spawn name "failed to run command ".toList (program :: rest) with
          | .killed signal => return .exited (128 + signal)
          | finish => return finish
    | _ =>
      tryHelp name
      return .exited 125

/-- Runs a program with another standing, which makes no difference here. -/
def unchanged (spawn : Spawn) (flags : List Flag) (usage : Nat) (lead : String) (alone : Program) : Program :=
  fun name args => do
    match Arguments.read (flags ++ [.plain "help" ["help"], .plain "version" ["version"]]) false args with
    | .error fault => return .exited (← misused name usage fault.describe)
    | .ok a => if a.operands.isEmpty then alone name args else become spawn name lead.toList a.operands

/-- The paths of programs. -/
def which : Command := fun _ args => do
  let p ← get
  match args with
  | ('-' :: c :: _) :: _ =>
    if c ≠ 'a' && c ≠ 's' then
      complain ("Illegal option -".toList ++ [c])
      printLine "Usage: /usr/bin/which [-as] args".toList
      return 2
    else return 1
  | _ =>
    let found := args.map (findProgram p)
    found.forM fun
      | .ok path => if programAt p.store path = some true then printLine path else pure ()
      | .error _ => pure ()
    return if !args.isEmpty && found.all Except.isOk then 0 else 1

end Utility

end StubRelease.Shell
