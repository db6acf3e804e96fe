/-
# StubRelease.Shell.State -- a shell at work

A shell is a process with variables, functions, options, the status of its last command, and what it is to
do when it is sent a signal. A command may end the shell, a function or a loop before its end.
-/
import StubRelease.Shell.Field
import StubRelease.Shell.Flags
import StubRelease.Shell.Script
import StubRelease.Shell.Variable

namespace StubRelease.Shell

/-- How far a command is that runs beside the shell. -/
inductive JobState where
  | done (finish : Finish)
  /-- It has not begun yet; `asleep` says whether it begins by sleeping. -/
  | waiting (asleep : Bool) (run : Machine → Finish × Machine)

/-- A command that runs beside the shell. -/
structure Job where
  /-- Its number among the jobs. -/
  slot : Nat
  /-- The number of its process. -/
  process : Nat
  state : JobState
  /-- Whether the shell has waited for it. -/
  waited : Bool
  /-- How many commands it is a pipeline of. -/
  commands : Nat

/-- A function. -/
structure Function where
  body : Script
  /-- What its body is written as. -/
  source : Text
  /-- Whether shells that are started know it. -/
  exported : Bool
  readOnly : Bool

/-- A shell at work. -/
structure State where
  process : Process
  dialect : Dialect
  /-- The name it is called by. -/
  name : Text
  /-- Whether the script is an argument and not a file. -/
  inline : Bool
  args : List Text
  bindings : List (Text × Variable)
  functions : List (Text × Function)
  aliases : List (Text × Text)
  /-- The paths of the programs that were looked for, and how often they were run. -/
  remembered : List (Text × Text × Nat)
  /-- The letters of the options that are on; `|` lets a pipeline fail if one of its commands does. -/
  options : List Char
  status : Nat
  /-- The status of the last script that was run for its output. -/
  substituted : Option Nat
  /-- The number the shell shows as its own, also in a copy of it. -/
  shownNumber : Nat
  lastJob : Option Nat
  /-- The jobs, the latest first. -/
  jobs : List Job
  /-- What is done at the end, which has number 0, and on signals. -/
  traps : List (Nat × Text)
  /-- The signals that have done nothing to the shell from its beginning, and never will. -/
  deaf : List Nat
  /-- The variables that functions at work have hidden, as they were. -/
  hidden : List (List (Text × Option Variable))
  /-- The functions at work, the innermost first, and the lines they were called in. -/
  callers : List (Text × Nat)
  /-- The statuses of the commands of the last pipeline. -/
  piped : List Nat
  /-- The directories that are kept to be gone back to, the last one first. -/
  kept : List Text
  /-- The descriptors of files with what scripts printed, and of those that scripts read. -/
  files : List Nat
  /-- The scripts that read what is written to streams, when nothing more can be written there. -/
  readers : List (Nat × Script)
  /-- The names of the further options that are on. -/
  choices : List String
  /-- How many loops are at work. -/
  loops : Nat
  /-- How many files are being read as part of the script. -/
  sourced : Nat
  documents : Documents
  /-- The line of the command at work. -/
  line : Nat
  /-- The command of the shell itself that is at work. -/
  command : Option Text
  /-- The permissions that new files lack. -/
  mask : Nat
  /-- The place of the next argument that may be an option. -/
  optionIndex : Nat
  /-- How many letters of an argument have been taken for options; 0 if the next one is to be looked at. -/
  letters : Nat
  /-- The commands of the shell itself that are passed over. -/
  disabled : List Text
  /-- The bounds that were set on what programs may use, by their letters. -/
  bounds : List (Char × Text)
  /-- How many copies of a shell stand in each other here. -/
  depth : Nat
  /-- The last word of the command before. -/
  lastWord : Text
  /-- What the next random number comes from. -/
  seed : Nat

/-- The further options that are on from the beginning. -/
def initialChoices : List String :=
  ["checkwinsize", "cmdhist", "complete_fullquote", "extquote", "force_fignore", "globasciiranges",
    "globskipdots", "hostcomplete", "interactive_comments", "patsub_replacement", "progcomp", "promptvars",
    "sourcepath"]

/-- Options by name, with their letters; those without one are never on. -/
def optionNames : Dialect → List (String × Option Char)
  | .posix =>
    [("errexit", 'e'), ("noglob", 'f'), ("ignoreeof", 'I'), ("interactive", 'i'), ("monitor", 'm'), ("noexec", 'n'),
      ("stdin", 's'), ("xtrace", 'x'), ("verbose", 'v'), ("vi", 'V'), ("emacs", 'E'), ("noclobber", 'C'),
      ("allexport", 'a'), ("notify", 'b'), ("nounset", 'u'), ("privileged", 'p'), ("nolog", none), ("debug", none)]
  | .bash =>
    [("allexport", 'a'), ("braceexpand", 'B'), ("emacs", none), ("errexit", 'e'), ("errtrace", 'E'),
      ("functrace", 'T'), ("hashall", 'h'), ("histexpand", 'H'), ("history", none), ("ignoreeof", none),
      ("interactive-comments", none), ("keyword", 'k'), ("monitor", 'm'), ("noclobber", 'C'), ("noexec", 'n'),
      ("noglob", 'f'), ("nolog", none), ("notify", 'b'), ("nounset", 'u'), ("onecmd", 't'), ("physical", 'P'),
      ("pipefail", '|'), ("posix", none), ("privileged", 'p'), ("verbose", 'v'), ("vi", none), ("xtrace", 'x')]

/-- How a part of a script ends before its end. -/
inductive Ending where
  /-- The shell ends. -/
  | exit (status : Nat)
  /-- A fault ends the shell unless a command of its own met it. -/
  | fault (status : Nat)
  /-- Nothing more of the line is done. -/
  | abandon (status : Nat)
  | killed (signal : Nat)
  | leaveFunction (status : Nat)
  | leaveLoops (count : Nat)
  | nextRound (count : Nat)

/-- Works in a shell. -/
abbrev Eval := ExceptT Ending (StateM State)

namespace State

def isOn (s : State) (option : Char) : Bool := s.options.contains option

def lookup? (s : State) (name : Text) : Option Variable := s.bindings.lookup name

/-- The name that a name stands for, if it is that of a reference. The number bounds how many references stand for
each other. -/
def followed (s : State) : Nat → Text → Text
  | 0, name => name
  | n + 1, name =>
    match s.lookup? name with
    | some v =>
      match if v.isReference then v.value else none with
      | some other => followed s n other
      | none => name
    | none => name

/-- The name of the variable that a name stands for. -/
def meant (s : State) (name : Text) : Text := s.followed 16 name

/-- The value of a variable. -/
def value? (s : State) (name : Text) : Option Text := (s.lookup? name).bind (·.value)

/-- A shell that has forgotten where programs are if a variable is the one that says so. -/
def movedBy (s : State) (name : Text) : State :=
  if name = "PATH".toList then { s with remembered := [] } else s

def setVariable (s : State) (name : Text) (v : Variable) : State :=
  { s.movedBy name with bindings := (name, v) :: s.bindings.filter (·.1 ≠ name) }

/-- A shell without a variable. -/
def withoutVariable (s : State) (name : Text) : State :=
  { s.movedBy name with bindings := s.bindings.filter (·.1 ≠ name) }

/-- Whether words are replaced by what they are aliases for. -/
def expandsAliases (s : State) : Bool := s.dialect = .posix || s.choices.contains "expand_aliases"

/-- A shell with other arguments; in one dialect their options are looked for from the first one on. -/
def withArguments (s : State) (args : List Text) : State :=
  match s.dialect with
  | .posix => { s with args, optionIndex := 1, letters := 0 }
  | .bash => { s with args }

/-- A shell with a variable's value changed. -/
def assigned (s : State) (name value : Text) : State :=
  let old := (s.lookup? name).getD default
  s.setVariable name { old with value := some value, exported := old.exported || s.isOn 'a' }

/-- The letters of the options that are on, in the order in which they are shown. -/
def shownOptions (s : State) : Text :=
  match s.dialect with
  | .posix => "pubaCEVvxsnmiIfe".toList.filter s.isOn
  | .bash => "abefhkmnptuvxBCEHPT".toList.filter s.isOn ++ (if s.inline then ['c'] else [])

/-- The variable of the environment that a function is in. -/
def functionVariable (name : Text) : Text := "BASH_FUNC_".toList ++ name ++ "%%".toList

/-- The variables that programs are given. -/
def environment (s : State) : List (Text × Text) :=
  s.bindings.filterMap (fun (name, v) =>
    if v.exported && v.shape = .single then v.value.map (name, ·) else none)
  ++ s.functions.filterMap fun (name, f) =>
    if f.exported then some (functionVariable name, "() ".toList ++ f.source) else none

/-- How patterns are read; `choice` is the name of the further option that lets the case of letters be. -/
def patterns (s : State) (choice : String) : PatternManner :=
  match s.dialect with
  | .posix => ⟨['!'], false, false⟩
  | .bash => ⟨['!', '^'], s.choices.contains "extglob", s.choices.contains choice⟩

/-- The characters that separate fields. -/
def separators (s : State) : Text :=
  (s.value? "IFS".toList).getD [' ', '\t', '\n']

/-- What stands between arguments that are joined. -/
def joint (s : State) : Text :=
  ((s.value? "IFS".toList).getD [' ']).take 1

/-- Whether the option with a name and perhaps a letter is on. -/
def hasOption (s : State) (name : String) (letter : Option Char) : Bool :=
  letter.any s.isOn || name = "interactive-comments"

/-- The number after one that random numbers come from. -/
def nextSeed (seed : Nat) : Nat :=
  let seed := if seed = 0 then 123459876 else seed
  16807 * seed % (Nat.pow 2 31 - 1)

/-- A number below 2^15 that looks random. -/
def randomNumber (s : State) : Nat := (s.seed / Nat.pow 2 16 ^^^ s.seed % Nat.pow 2 16) % Nat.pow 2 15

/-- The places and values of a variable that has several, among them those the shell keeps itself. -/
def rowOf (s : State) (name : Text) : List (Text × Text) :=
  let name := s.meant name
  let numbered (values : List Text) : List (Text × Text) := values.zipIdx.map fun (t, i) => (Text.ofNat i, t)
  match s.lookup? name with
  | some v => v.listed
  | none =>
    if s.dialect = .posix then []
    else
      match String.ofList name with
      | "PIPESTATUS" => numbered (s.piped.map Text.ofNat)
      | "FUNCNAME" =>
        numbered (s.callers.map (·.1) ++ (if s.callers.isEmpty then [] else ["main".toList]))
      | "BASH_LINENO" => numbered (s.callers.map (fun c => Text.ofNat c.2) ++ [['0']])
      | "BASH_SOURCE" => numbered (s.callers.map (fun _ => s.name) ++ (if s.inline then [] else [s.name]))
      | "BASH_VERSINFO" => numbered (["5", "2", "21", "1", "release", "x86_64-pc-linux-gnu"].map String.toList)
      | "GROUPS" | "SECONDS" => numbered [['0']]
      | "BASH_SUBSHELL" => numbered [Text.ofNat s.depth]
      | "RANDOM" => numbered [Text.ofNat s.randomNumber]
      | "_" => numbered [s.lastWord]
      | "BASHOPTS" => numbered [Text.join [':'] ((s.choices.map String.toList).mergeSort Text.notAfter)]
      | "SHELLOPTS" =>
        let on := (optionNames s.dialect).filter fun (name, letter) => s.hasOption name letter
        numbered [Text.join [':'] (on.map (·.1.toList))]
      | "BASHPID" => numbered [Text.ofNat s.process.number]
      | "LINENO" => numbered [Text.ofNat s.line]
      | _ => []

end State

namespace Eval

def setStatus (n : Nat) : Eval Unit := modify fun s => { s with status := n }

/-- Works in the shell's process. -/
def act {α : Type} (a : Act α) : Eval α := modifyGet fun s =>
  let (result, process) := a s.process
  (result, { s with process })

/-- Complains in the shell's name about the line at work. -/
def complain (text : Text) : Eval Unit := do
  let s ← get
  let place := match s.dialect with
    | .posix => ": ".toList
    | .bash => ": line ".toList
  let command := match s.command with
    | some name => name ++ ": ".toList
    | none => []
  act (Act.complain (s.name ++ place ++ Text.ofNat s.line ++ ": ".toList ++ command ++ text))

/-- Complains, and gives a status. -/
def refuse (status : Nat) (text : Text) : Eval Nat := do
  complain text
  return status

/-- Complains of a fault that ends the shell. -/
def abort {α : Type} (text : Text) : Eval α := do
  complain text
  throw (.fault (if (← get).dialect = .bash then 1 else 2))

/-- Complains of a parameter that is not set. -/
def notSet {α : Type} (name : Text) (text : Text) : Eval α := do
  complain (name ++ ": ".toList ++ text)
  let s ← get
  match s.dialect with
  | .posix => throw (.fault 2)
  | .bash => throw (.exit (if s.inline && s.hidden.isEmpty then 127 else 1))

/-- Gives a variable a value, unless it must not be changed. -/
def assign (name value : Text) : Eval Unit := do
  let s ← get
  let name := s.meant name
  if (s.lookup? name).any (·.readOnly) then
    abort (name ++ (if s.dialect = .bash then ": readonly variable" else ": is read only").toList)
  else
    set (s.assigned name value)
    if name = "OPTIND".toList then
      let index ← match Text.toNat? value, s.dialect with
        | some n, _ => pure n
        | none, .posix => abort ("Illegal number: ".toList ++ value)
        | none, .bash => pure 1
      modify fun s => { s with optionIndex := max index 1, letters := 0 }
    if name = "RANDOM".toList && s.dialect = .bash then
      modify fun s => { s.withoutVariable name with seed := Text.number value }

/-- Takes a variable away. -/
def forget (name : Text) : Eval Unit := do
  let s ← get
  let name := s.meant name
  if (s.lookup? name).any (·.readOnly) then
    if s.dialect = .bash then
      complain (name ++ ": cannot unset: readonly variable".toList)
      throw (.fault 1)
    else abort (name ++ ": is read only".toList)
  else set (s.withoutVariable name)

/-- Draws another random number. -/
def drawNumber : Eval Unit := modify fun s => { s with seed := State.nextSeed s.seed }

/-- The value of a parameter that is no list, if it is set. -/
def param? (s : State) (name : Text) : Option Text :=
  match name with
  | ['#'] => some (Text.ofNat s.args.length)
  | ['?'] => some (Text.ofNat s.status)
  | ['$'] => some (Text.ofNat s.shownNumber)
  | ['-'] => some (s.shownOptions)
  | ['!'] => s.lastJob.map Text.ofNat
  | ['@'] | ['*'] => if s.args.isEmpty then none else some (Text.unwords s.args)
  | ['0'] => some s.name
  | c :: rest =>
    if c.isDigit then
      let n := Text.number (c :: rest)
      if n = 0 then some s.name else s.args[n - 1]?
    else
      let name := s.meant name
      if (s.lookup? name).isNone then (s.rowOf name).lookup ['0'] else s.value? name
  | [] => none

/-- A number that an argument has to be. -/
def number (arg : Text) : Eval Nat :=
  match Text.toNat? arg with
  | some n => if n < Nat.pow 2 31 then pure n else abort ("Illegal number: ".toList ++ arg)
  | none => abort ("Illegal number: ".toList ++ arg)

/-! ## Signals -/

/-- The names of the signals by their numbers from 0 on. -/
def signalNames : List String :=
  ["EXIT", "HUP", "INT", "QUIT", "ILL", "TRAP", "ABRT", "BUS", "FPE", "KILL", "USR1", "SEGV", "USR2", "PIPE",
    "ALRM", "TERM", "STKFLT", "CHLD", "CONT", "STOP", "TSTP", "TTIN", "TTOU", "URG", "XCPU", "XFSZ", "VTALRM",
    "PROF", "WINCH", "IO", "PWR", "SYS", "32", "33", "RTMIN"]
  ++ (List.range 15).map (fun i => "RTMIN+" ++ toString (i + 1))
  ++ (List.range 14).map (fun i => "RTMAX-" ++ toString (14 - i)) ++ ["RTMAX"]

/-- The name of a signal in a dialect, or its number if the dialect has none. -/
def signalName (d : Dialect) (n : Nat) : Text :=
  if d = .posix && n = 16 then Text.ofNat n
  else ((signalNames[n]?).map String.toList).getD (Text.ofNat n)

/-- The signal that a name or number stands for. One dialect lets a name begin with the word for signals. -/
def signal? (d : Dialect) (t : Text) : Option Nat :=
  match Text.toNat? t with
  | some n => if n ≤ 64 then some n else none
  | none =>
    let upper := t.map Char.toUpper
    let lead := "SIG".toList
    let name := if d = .bash && lead.isPrefixOf upper then upper.drop lead.length else upper
    (List.range 65).find? fun n => signalName d n = name && n ≠ 32 && n ≠ 33

/-- Signals that do not end a process. -/
def harmless : List Nat := [0, 17, 18, 19, 20, 21, 22, 23, 28]

/-- What is said of a program that a signal ended. -/
def obituary (signal : Nat) : Option String :=
  match signal with
  | 1 => some "Hangup"
  | 3 => some "Quit"
  | 4 => some "Illegal instruction"
  | 5 => some "Trace/breakpoint trap"
  | 6 => some "Aborted"
  | 7 => some "Bus error"
  | 8 => some "Floating point exception"
  | 9 => some "Killed"
  | 10 => some "User defined signal 1"
  | 11 => some "Segmentation fault"
  | 12 => some "User defined signal 2"
  | 14 => some "Alarm clock"
  | 15 => some "Terminated"
  | 16 => some "Stack fault"
  | 24 => some "CPU time limit exceeded"
  | 25 => some "File size limit exceeded"
  | 26 => some "Virtual timer expired"
  | 27 => some "Profiling timer expired"
  | 29 => some "I/O possible"
  | 30 => some "Power failure"
  | 31 => some "Bad system call"
  | _ => none

/-- The status of a program, as a shell sees it. -/
def statusOf : Finish → Nat
  | .exited code => code
  | .killed signal => 128 + signal

/-- Says how a program was ended by a signal. -/
def mourn (finish : Finish) : Eval Unit := do
  if (← get).dialect = .posix then
    match finish with
    | .killed signal =>
      match obituary signal with
      | some text => act (Act.complain text.toList)
      | none => pure ()
    | .exited _ => pure ()

/-! ## Jobs -/

/-- The job of a process. -/
def jobOf? (s : State) (process : Nat) : Option Job := s.jobs.find? (·.process = process)

/-- Changes the job of a process. -/
def changeJob (process : Nat) (change : Job → Job) : Eval Unit := modify fun s =>
  { s with jobs := s.jobs.map fun job => if job.process = process then change job else job }

/-- How the job of a process ends, which is run if it waits. -/
def finishJob (process : Nat) : Eval (Option Finish) := do
  let s ← get
  match (jobOf? s process).map Job.state with
  | some (.waiting _ run) =>
    let (finish, machine) := run s.process.machine
    set { s with process := { s.process with machine } }
    changeJob process fun job => { job with state := .done finish }
    return some finish
  | some (.done finish) => return some finish
  | none => return none

/-- Runs the jobs that wait, in their order; those asleep only if they are awaited. -/
def finishJobs (awaited : Bool) : Eval Unit := do
  for job in (← get).jobs.reverse do
    match job.state with
    | .waiting asleep _ =>
      if awaited || !asleep then
        let _ ← finishJob job.process
    | .done _ => pure ()

/-- Frees the first slot of a job that was waited for, and gives the first free slot. -/
def freeSlot : Eval Nat := do
  let s ← get
  let isOver (job : Job) : Bool := match job.state with
    | .done _ => job.waited
    | .waiting _ _ => false
  let taken (slot : Nat) : Bool := s.jobs.any fun job => job.slot = slot && !isOver job
  let slot := ((List.range (s.jobs.length + 1)).map (· + 1)).find? (!taken ·)
  let slot := slot.getD 1
  set { s with jobs := s.jobs.filter (·.slot ≠ slot) }
  return slot

end Eval

end StubRelease.Shell
