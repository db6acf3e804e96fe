/-
# StubRelease.Shell.Builtin.Control -- commands that steer a shell

Commands that end the shell, a function or a loop, that change its options and arguments, and that have to
do with jobs and signals.
-/
import StubRelease.Shell.Format
import StubRelease.Shell.State

namespace StubRelease.Shell

/-- A command of the shell itself: it is given its name and its arguments, and gives its status. -/
abbrev Builtin := Text → List Text → Eval Nat

namespace Builtin

open Eval

/-! ## Leaving -/

/-- The status that an argument asks for; a shell that keeps to the standard takes no sign. -/
def askedStatus (arg : Text) : Eval Nat := do
  match (← get).dialect with
  | .posix => number arg
  | .bash =>
    match Text.toInt? arg with
    | some n => return (n % 256).toNat
    | none =>
      complain (arg ++ ": numeric argument required".toList)
      return 2

/-- The status of a command that leaves, from its arguments. -/
def leavingStatus (args : List Text) : Eval Nat := do
  match args with
  | ['-', '-'] :: arg :: _ | arg :: _ => askedStatus arg
  | [] => return (← get).status

/-- Gives up the line of a command with more arguments than its one number. -/
def oneNumber (args : List Text) : Eval Unit := do
  if args.length > 1 && (← get).dialect = .bash && (Text.toInt? (args.headD [])).isSome then
    complain "too many arguments".toList
    throw (.abandon 1)

def exit : Builtin := fun _ args => do
  oneNumber args
  throw (.exit ((← leavingStatus args) % 256))

/-- Leaves a function or a file that is read as part of the script. -/
def leave : Builtin := fun _ args => do
  oneNumber args
  let status ← leavingStatus args
  let s ← get
  if s.dialect = .bash && s.hidden.isEmpty && s.sourced = 0 then
    refuse 2 "can only \x60return' from a function or sourced script".toList
  else throw (.leaveFunction status)

/-- Leaves loops, or goes on with the next round of one. -/
def loopControl (ending : Nat → Ending) : Builtin := fun _ args => do
  let s ← get
  match s.dialect with
  | .posix =>
    let count ← match args with
      | arg :: _ => number arg
      | [] => pure 1
    if count = 0 then abort "Illegal number: 0".toList
    else if s.loops = 0 then return 0
    else
      setStatus 0
      throw (ending (min count s.loops))
  | .bash =>
    if s.loops = 0 then
      complain "only meaningful in a \x60for', \x60while', or \x60until' loop".toList
      return 0
    else
      let arg := args.headD ['1']
      match Text.toInt? arg with
      | none =>
        complain (arg ++ ": numeric argument required".toList)
        throw (.exit (s.status ||| 128))
      | some count =>
        oneNumber args
        if count ≤ 0 then
          complain (arg ++ ": loop count out of range".toList)
          setStatus 1
          throw (.leaveLoops s.loops)
        else
          setStatus 0
          throw (ending (min count.toNat s.loops))

/-! ## Options and arguments -/

/-- Letters a shell knows as options. -/
def optionLetters (d : Dialect) : Text :=
  if d = .bash then "abefhkmnptuvxBCEHPT".toList else "aCefimnsuvxIVEbp".toList

/-- Turns an option on or off. -/
def setOption (letter : Char) (on : Bool) : Eval Unit := modify fun s =>
  let others := s.options.filter (· ≠ letter)
  { s with options := if on then letter :: others else others }

/-- Turns the option with a name on or off. -/
def setNamed (name : Text) (on : Bool) : Eval Unit := do
  let s ← get
  match (optionNames s.dialect).lookup (String.ofList name) with
  | some letter => letter.forM fun letter => setOption letter on
  | none =>
    if s.dialect = .bash then
      complain (name ++ ": invalid option name".toList)
      throw (.fault 2)
    else abort ("Illegal option -o ".toList ++ name)

/-- Prints which options are on, in a table or as the commands that turn them on and off. -/
def showOptions (table : Bool) : Eval Unit := do
  let s ← get
  let line (name : String) (letter : Option Char) : Text :=
    let on := s.hasOption name letter
    if !table then "set ".toList ++ [if on then '-' else '+', 'o', ' '] ++ name.toList
    else
      let width := if s.dialect = .bash then 15 else 16
      name.toList ++ List.replicate (width - name.length) ' ' ++ (if s.dialect = .bash then ['\t'] else [])
        ++ (if on then "on" else "off").toList
  let lines := (optionNames s.dialect).map fun (name, letter) => line name letter
  let head := if table && s.dialect = .posix then ["Current option settings".toList] else []
  act (Act.print (Text.unlines (head ++ lines)))

/-- Turns the options of a word on or off; those with a name take it from the words that follow. -/
def setLetters (on : Bool) : Text → List Text → Eval (List Text)
  | [], rest => pure rest
  | 'o' :: more, rest => do
    match rest with
    | name :: rest =>
      setNamed name on
      setLetters on more rest
    | [] =>
      showOptions on
      setLetters on more []
  | c :: more, rest => do
    let s ← get
    if !(optionLetters s.dialect).contains c then
      if s.dialect = .bash then
        complain ('-' :: c :: ": invalid option".toList)
        throw (.fault 2)
      else abort ("Illegal option ".toList ++ [if on then '-' else '+', c])
    else setOption c on
    setLetters on more rest

/-- Further options by name, in the order in which they are shown. -/
def choiceNames : List String :=
  ["autocd", "assoc_expand_once", "cdable_vars", "cdspell", "checkhash", "checkjobs", "checkwinsize",
    "cmdhist", "compat31", "compat32", "compat40", "compat41", "compat42", "compat43", "compat44",
    "complete_fullquote", "direxpand", "dirspell", "dotglob", "execfail", "expand_aliases", "extdebug",
    "extglob", "extquote", "failglob", "force_fignore", "globasciiranges", "globskipdots", "globstar",
    "gnu_errfmt", "histappend", "histreedit", "histverify", "hostcomplete", "huponexit",
    "inherit_errexit", "interactive_comments", "lastpipe", "lithist", "localvar_inherit",
    "localvar_unset", "login_shell", "mailwarn", "no_empty_cmd_completion", "nocaseglob", "nocasematch",
    "noexpand_translation", "nullglob", "patsub_replacement", "progcomp", "progcomp_alias",
    "promptvars", "restricted_shell", "shift_verbose", "sourcepath", "varredir_close", "xpg_echo"]

/-- Turns further options, or with a letter those of the shell, on or off, or asks whether they are on. -/
def shopt : Builtin := fun _ args => do
  let isOption (a : Text) : Bool := a.head? = some '-' && a.length > 1
  let letters := (args.takeWhile isOption).flatten
  let names := args.dropWhile isOption
  let has (letter : Char) : Bool := letters.contains letter
  let isKnown (key : String) : Bool :=
    if has 'o' then ((optionNames .bash).lookup key).isSome else choiceNames.contains key
  let isOn (s : State) (key : String) : Bool :=
    if has 'o' then ((optionNames .bash).lookup key).any (s.hasOption key) else s.choices.contains key
  let line (s : State) (key : String) : Text :=
    let on := isOn s key
    if has 'p' then (if has 'o' then (if on then "set -o " else "set +o ") else if on then "shopt -s " else "shopt -u ").toList
      ++ key.toList
    else key.toList ++ List.replicate (15 - key.length) ' ' ++ '\t' :: (if on then "on" else "off").toList
  if names.isEmpty then
    let s ← get
    let all := if has 'o' then (optionNames .bash).map (·.1) else choiceNames
    let asked := all.filter fun key => (!has 's' || isOn s key) && (!has 'u' || !isOn s key)
    if !has 'q' then asked.forM fun key => act (Act.printLine (line s key))
    return 0
  else
    let results ← names.mapM fun (name : Text) => do
      let key := String.ofList name
      if !isKnown key then
        complain (name ++ ": invalid shell option name".toList)
        return false
      else if has 's' || has 'u' then
        if has 'o' then setNamed name (has 's')
        else modify fun s =>
          let others := s.choices.filter (· ≠ key)
          { s with choices := if has 's' then key :: others else others }
        return true
      else
        let s ← get
        if !has 'q' then act (Act.printLine (line s key))
        return isOn s key
    return if results.all id then 0 else 1

/-- Reads the options at the front of some words. `none` is given back for the words if there was no sign
that they are meant as arguments. -/
def setOptions : Nat → List Text → Eval (Option (List Text))
  | 0, _ => return none
  | _, [] => return none
  | n + 1, word :: rest =>
    match word with
    | ['-', '-'] => return some rest
    | ['-'] => do
      setOption 'x' false
      setOption 'v' false
      return if rest.isEmpty then none else some rest
    | '-' :: letters => do setOptions n (← setLetters true letters rest)
    | '+' :: letters => do setOptions n (← setLetters false letters rest)
    | _ => return some (word :: rest)

/-- A text in single quotes, as a script would write it; single quotes in it stand in double ones. The number
bounds the pieces. -/
def quotedIn : Nat → Text → Text
  | 0, _ => []
  | n + 1, t =>
    let plain := t.takeWhile (· ≠ '\'')
    let rest := t.drop plain.length
    let quotes := rest.takeWhile (· = '\'')
    let after := rest.drop quotes.length
    let lead := '\'' :: plain ++ ['\'']
    if quotes.isEmpty then lead
    else lead ++ '"' :: quotes ++ '"' :: (if after.isEmpty then [] else quotedIn n after)

/-- A text in single quotes, as a script would write it. -/
def quoted (t : Text) : Text := quotedIn (t.length + 1) t

/-- A text in single quotes, as a dialect writes it. -/
def quotedFor (d : Dialect) (t : Text) : Text :=
  match d with
  | .posix => quoted t
  | .bash => singlyQuoted t

def shift : Builtin := fun _ args => do
  oneNumber args
  let s ← get
  let count ← match args with
    | arg :: _ =>
      if s.dialect = .bash && (Text.toNat? arg).isNone then
        complain (arg ++ ": numeric argument required".toList)
        throw (.fault 1)
      else number arg
    | [] => pure 1
  if count ≤ s.args.length then
    set (s.withArguments (s.args.drop count))
    return 0
  else if s.dialect = .bash then return 1
  else abort "can't shift that many".toList

/-! ## Jobs and signals -/

/-- Prints the usage of the command that sends signals. -/
def killUsage : Eval Nat := do
  if (← get).dialect = .bash then
    act (Act.complain
      "kill: usage: kill [-s sigspec | -n signum | -sigspec] pid | jobspec ... or kill -l [sigspec]".toList)
    return 2
  else
    abort
      "Usage: kill [-s sigspec | -signum | -sigspec] [pid | job]... or\nkill -l [exitstatus]".toList

/-- Sends a signal to the process with a number. -/
def send (signal number : Nat) : Eval Bool := do
  let s ← get
  match (jobOf? s number).map Job.state with
  | some (.waiting _ _) =>
    if signal ≠ 0 && !harmless.contains signal then
      changeJob number fun job => { job with state := .done (.killed signal) }
    return true
  | some (.done _) => return false
  | none =>
    if number = s.process.number || number = s.shownNumber || number = s.process.parent then
      if signal ≠ 0 then
        act (modify fun p => { p with machine := { p.machine with
          signals := p.machine.signals ++ [(number, signal)] } })
      return true
    else return false

/-- The process that a job's name or a number stands for. -/
def target? (s : State) (t : Text) : Option Nat :=
  match t with
  | '%' :: name =>
    match Text.toNat? name with
    | some n => (s.jobs.find? (·.slot = n)).map (·.process)
    | none =>
      if name = ['-'] then ((s.jobs.drop 1).head?).map (·.process)
      else if name.isEmpty || name = ['+'] || name = ['%'] then s.jobs.head?.map (·.process)
      else none
  | _ => Text.toNat? t

/-- The process that a job's name or a number stands for; a shell that keeps to the standard refuses all else. -/
def target (t : Text) : Eval (Option Nat) := do
  let s ← get
  match target? s t, s.dialect with
  | some number, _ => return some number
  | none, .bash => return none
  | none, .posix =>
    if t.head? = some '%' then abort ("No such job: ".toList ++ t)
    else
      let _ ← number (if t.head? = some '-' then t.drop 1 else t)
      return some 0

/-- Sends a signal to several processes. In bash it is enough to reach one of them. -/
def sendAll (signal : Nat) (targets : List Text) : Eval Nat := do
  let bash := (← get).dialect = .bash
  let reached ← targets.mapM fun t => do
    match ← target t with
    | some number =>
      /- a job's group has no signals of its own where jobs are not controlled -/
      let sent ← if !bash && t.head? = some '%' then pure false else send signal number
      if !sent then
        complain (if bash then '(' :: t ++ ") - No such process".toList else "No such process\n".toList)
      return sent
    | none =>
      complain (t ++ (if t.head? = some '%' then ": no such job"
        else ": arguments must be process or job IDs").toList)
      return false
  return if (if bash then reached.any id else reached.all id) then 0 else 1

/-- Prints the names of all signals. -/
def listSignals : Eval Nat := do
  let names := signalNames.length
  match (← get).dialect with
  | .posix =>
    act (Act.print (Text.unlines (['0'] :: ((List.range names).drop 1).map (signalName .posix))))
  | .bash =>
    let known := ((List.range names).drop 1).filter fun n => n ≠ 32 && n ≠ 33
    let cell (n : Nat) (isLast : Bool) : Text :=
      let number := Text.ofNat n
      let name := "SIG".toList ++ signalName .bash n
      List.replicate (2 - number.length) ' ' ++ number ++ ") ".toList ++ name
        ++ (if isLast then ['\n'] else ['\t'])
    act (Act.print ((known.zipIdx.flatMap fun (n, i) => cell n (i % 5 = 4 || i + 1 = known.length))))
  return 0

/-- Names a signal, which is given by its number, its name or the status of a program it ended. -/
def nameSignal (t : Text) : Eval Nat := do
  match Text.toNat? t, (← get).dialect with
  | some n, d =>
    let n := if n > 128 then n - 128 else n
    if n < signalNames.length && (0 < n || d = .bash) then
      act (Act.printLine (signalName d n))
      return 0
    else if d = .bash then refuse 1 (t ++ ": invalid signal specification".toList)
    else abort ("invalid signal number or exit status: ".toList ++ t)
  | none, .bash =>
    match signal? .bash t with
    | some n =>
      act (Act.printLine (Text.ofNat n))
      return 0
    | none => refuse 1 (t ++ ": invalid signal specification".toList)
  | none, .posix =>
    let _ ← number t
    return 2

def kill : Builtin := fun _ args => do
  let s ← get
  match args with
  | [] => killUsage
  | ['-', 'l'] :: rest =>
    match rest, s.dialect with
    | [], _ => listSignals
    | t :: _, .posix => nameSignal t
    | _, .bash =>
      let results ← rest.mapM nameSignal
      return results.foldl max 0
  | ['-', 's'] :: name :: targets =>
    if targets.isEmpty then killUsage
    else
      match signal? s.dialect name with
      | some signal => sendAll signal targets
      | none =>
        if s.dialect = .bash then refuse 1 (name ++ ": invalid signal specification".toList)
        else abort ("invalid signal number or name: ".toList ++ name)
  | ['-', '-'] :: targets => if targets.isEmpty then killUsage else sendAll 15 targets
  | ('-' :: name) :: targets =>
    let (name, targets) := match s.dialect, name, targets with
      | .bash, ['n'], name :: targets => (name, targets)
      | _, _, _ => (name, targets)
    match signal? s.dialect name with
    | some signal => if targets.isEmpty then killUsage else sendAll signal targets
    | none =>
      if s.dialect = .bash then refuse 1 (name ++ ": invalid signal specification".toList)
      else abort ("Illegal option -".toList ++ name.take 1)
  | targets => sendAll 15 targets

/-- Waits for a process, and gives its status. -/
def await (process : Nat) : Eval (Option Nat) := do
  match ← finishJob process with
  | some finish =>
    changeJob process fun job => { job with waited := true }
    mourn finish
    return some (statusOf finish)
  | none => return none

def wait : Builtin := fun _ args => do
  let s ← get
  let args := if args.head? = some ['-', '-'] then args.drop 1 else args
  match args, s.dialect with
  | [], _ =>
    s.jobs.reverse.forM fun job => do
      let _ ← await job.process
    return 0
  | ['-', 'n'] :: _, .bash =>
    match s.jobs.reverse.find? (!·.waited) with
    | some job => return (← await job.process).getD 127
    | none => return 127
  | _, _ =>
    let mut status := 127
    for t in args do
      match ← target t with
      | some n =>
        match ← await n with
        | some found => status := found
        | none =>
          if s.dialect = .bash then
            complain ("pid ".toList ++ t ++ " is not a child of this shell".toList)
            status := 127
      | none =>
        if t.head? = some '%' then
          complain (t ++ ": no such job".toList)
          status := 127
        else
          complain ('\x60' :: t ++ "': not a pid or valid job spec".toList)
          status := 1
    return status

/-- How a job is shown in a list. -/
def shownJob (job : Job) (sign : Char) : Text :=
  let state := match job.state with
    | .waiting _ _ => "Running".toList
    | .done (.exited 0) => "Done".toList
    | .done (.exited n) => "Done(".toList ++ Text.ofNat n ++ [')']
    | .done (.killed signal) => ((obituary signal).getD "Interrupt").toList
  let line := '[' :: Text.ofNat job.slot ++ "] ".toList ++ [sign, ' '] ++ state
  line ++ List.replicate (33 - line.length) ' ' ++ (List.replicate (job.commands - 1) " | ".toList).flatten

/-- Whether a job has not ended. -/
def isRunning (job : Job) : Bool :=
  match job.state with
  | .waiting _ _ => true
  | .done _ => false

/-- The lines of jobs, of which some number stands before them; one that has ended is gone when it was shown. -/
def jobLines : Nat → List Job → List Text
  | _, [] => []
  | before, job :: rest =>
    shownJob job (if before = 0 then '+' else if before = 1 then '-' else ' ')
      :: jobLines (if isRunning job then before + 1 else before) rest

/-- Prints the jobs; one that has ended is shown once. -/
def jobs : Builtin := fun _ args => do
  let s ← get
  if s.dialect = .posix then
    match args with
    | ['-', 'p'] :: _ => s.jobs.forM fun job => act (Act.printLine (Text.ofNat job.process))
    | _ => (jobLines 0 s.jobs).forM fun line => act (Act.printLine line)
    modify fun s => { s with jobs := s.jobs.filter isRunning }
  return 0

/-- What else something can be done on, in one dialect, by name. -/
def happenings : List (String × Nat) := [("ERR", 65), ("RETURN", 66), ("DEBUG", 67)]

/-- What a command on signals takes a name for. -/
def trapped? (s : State) (name : Text) : Option Nat :=
  match signal? s.dialect name with
  | some n => some n
  | none => if s.dialect = .bash then happenings.lookup (String.ofList name) else none

/-- Prints what is done on signals of a kind. -/
def showTraps (keep : Nat → Bool) : Eval Unit := do
  let s ← get
  for (n, action) in s.traps.mergeSort (fun a b => decide (a.1 ≤ b.1)) do
    if keep n then
      let name := signalName s.dialect n
      let name := if let some (happening, _) := happenings.find? (·.2 = n) then happening.toList
        else if s.dialect = .bash && n ≠ 0 then "SIG".toList ++ name else name
      act (Act.printLine ("trap -- ".toList ++ quotedFor s.dialect action ++ ' ' :: name))

/-- Sets what is done on a signal. -/
def setTrap (action : Option Text) (name : Text) : Eval Bool := do
  match trapped? (← get) name with
  | some n =>
    modify fun s => { s with
      traps := s.traps.filter (·.1 ≠ n) ++ (match action with
        | some t => [(n, t)]
        | none => []) }
    return true
  | none =>
    if (← get).dialect = .bash then complain (name ++ ": invalid signal specification".toList)
    else act (Act.complain ("trap: ".toList ++ name ++ ": bad trap".toList))
    return false

def trap : Builtin := fun _ args => do
  let args := match args with
    | ['-', '-'] :: rest => rest
    | _ => args
  match args, (← get).dialect with
  | ('-' :: c :: _) :: _, .posix => abort ("Illegal option -".toList ++ [c])
  | [], _ =>
    showTraps fun _ => true
    return 0
  | ['-', 'l'] :: _, .bash => listSignals
  | ['-', 'p'] :: names, .bash =>
    let asked := names.filterMap (trapped? (← get))
    showTraps fun n => names.isEmpty || asked.contains n
    return 0
  | [name], _ =>
    if (← get).dialect = .bash && (trapped? (← get) name).isNone then
      act (Act.complain "trap: usage: trap [-lp] [[arg] signal_spec ...]".toList)
      return 2
    return if ← setTrap none name then 0 else 1
  | action :: names, _ =>
    let isReset := action = ['-'] || (Text.toNat? action).isSome
    let names := if action = ['-'] || !isReset then names else args
    for name in names do
      if !(← setTrap (if isReset then none else some action) name) then return 1
    return 0

end Builtin

end StubRelease.Shell
