/-
# StubRelease.Shell.Builtin.Naming -- what the names of commands stand for

A name may be an alias, which stands for a text, and a shell remembers where it found programs. Names are listed
by the slots they fall into, which a sum of their characters gives, and those of a slot in the order in which
they came.
-/
import StubRelease.Shell.Builtin.Variables
import StubRelease.Shell.Redirecting

namespace StubRelease.Shell.Builtin

open Eval

/-- The slot of a name among a number of them. -/
def slotOf (slots : Nat) (name : Text) : Nat :=
  name.foldl (fun n c => n + c.toNat) ((name.headD '\x00').toNat * 16) % Nat.pow 2 15 % slots

/-- Names in the order of their slots. -/
def bySlot {α : Type} (slots : Nat) (entries : List (Text × α)) : List (Text × α) :=
  entries.mergeSort fun x y => slotOf slots x.1 ≤ slotOf slots y.1

/-- An alias as it is listed. -/
def shownAlias (d : Dialect) (name text : Text) : Text :=
  (if d = .bash then "alias ".toList else []) ++ name ++ '=' :: quotedFor d text

/-- Sets and shows aliases. -/
def aliasCommand : Builtin := fun _ args => do
  let s ← get
  let isOption (a : Text) : Bool := s.dialect = .bash && (a = ['-', 'p'] || a = ['-', '-'])
  let operands := args.dropWhile isOption
  if operands.isEmpty then
    let all := match s.dialect with
      | .posix => bySlot 39 s.aliases
      | .bash => s.aliases.mergeSort fun x y => Text.notAfter x.1 y.1
    all.forM fun (name, text) => act (Act.printLine (shownAlias s.dialect name text))
    return 0
  else
    let mut status := 0
    for arg in operands do
      /- a sign at the very beginning belongs to the name -/
      let name := arg.take 1 ++ (arg.drop 1).takeWhile (· ≠ '=')
      if name.length < arg.length then
        let text := arg.drop (name.length + 1)
        modify fun s =>
          let isKnown := s.aliases.any (·.1 = name)
          { s with aliases := if isKnown then
              s.aliases.map fun old => if old.1 = name then (name, text) else old
            else s.aliases ++ [(name, text)] }
      else
        match (← get).aliases.lookup name with
        | some text => act (Act.printLine (shownAlias s.dialect name text))
        | none =>
          act (Act.complain ("alias: ".toList ++ name ++ ": not found".toList))
          status := 1
    return status

/-- Takes aliases away. -/
def unalias : Builtin := fun _ args => do
  if args.head? = some ['-', 'a'] then
    modify fun s => { s with aliases := [] }
    return 0
  else if args.isEmpty && (← get).dialect = .bash then return 2
  else
    let mut status := 0
    for name in args do
      if (← get).aliases.any (·.1 = name) then
        modify fun s => { s with aliases := s.aliases.filter (·.1 ≠ name) }
      else
        act (Act.complain ("unalias: ".toList ++ name ++ ": not found".toList))
        status := 1
    return status

/-- Has commands of the shell itself passed over, or not any longer. `isOwn` says which names they have. -/
def enable (isOwn : Text → Bool) : Builtin := fun _ args => do
  refuseOptions "adnpsf" args
  let off := args.head? = some ['-', 'n']
  let names := args.filter fun a => a.head? ≠ some '-'
  if names.isEmpty then
    if off then
      for name in (← get).disabled.mergeSort Text.notAfter do
        act (Act.printLine ("enable -n ".toList ++ name))
    return 0
  else
    let results ← names.mapM fun name => do
      if !isOwn name then
        complain (name ++ ": not a shell builtin".toList)
        return false
      else
        modify fun s =>
          let others := s.disabled.filter (· ≠ name)
          { s with disabled := if off then name :: others else others }
        return true
    return if results.all id then 0 else 1

/-- The slot of a name among 256 of them in the dialect that counts how often a program was run. -/
def countingSlot (name : Text) : Nat :=
  name.foldl (fun h c => (h * 16777619 % Nat.pow 2 32) ^^^ c.toNat) 2166136261 % 256

/-- Prints where programs were found. -/
def showRemembered : Eval Unit := do
  let s ← get
  match s.dialect with
  | .posix =>
    (bySlot 31 s.remembered).forM fun (_, path, _) => act (Act.printLine path)
  | .bash =>
    if s.remembered.isEmpty then act (Act.printLine "hash: hash table empty".toList)
    else
      act (Act.printLine "hits\tcommand".toList)
      let all := s.remembered.reverse.mergeSort fun x y => countingSlot x.1 ≤ countingSlot y.1
      all.forM fun (_, path, count) =>
        let count := Text.ofNat count
        act (Act.printLine (List.replicate (4 - count.length) ' ' ++ count ++ '\t' :: path))

/-- Forgets a program. -/
def disregard (name : Text) : Eval Unit :=
  modify fun s => { s with remembered := s.remembered.filter (·.1 ≠ name) }

/-- Remembers where programs are, or shows or forgets it. `isOwn` says whether the shell itself has a command of a
name. -/
def hash (isOwn : State → Text → Bool) : Builtin := fun _ args => do
  let s ← get
  refuseOptions (if s.dialect = .bash then "rldtp" else "r") args
  let isOption (a : Text) : Bool := a.head? = some '-' && a.length > 1
  let letters := (args.takeWhile isOption).flatten
  let operands := args.dropWhile isOption
  if letters.contains 'r' then
    set { s with remembered := [] }
    if s.dialect = .posix then return 0
  if operands.isEmpty then
    if !letters.contains 'r' then showRemembered
    return 0
  else if letters.contains 'p' then
    for name in operands.drop 1 do
      disregard name
      modify fun s => { s with remembered := s.remembered ++ [(name, operands.headD [], 0)] }
    return 0
  else
    let results ← operands.mapM fun (name : Text) => do
      let s ← get
      let lacks : Eval Bool := do
        complain (name ++ ": not found".toList)
        return false
      if letters.contains 't' then
        match s.remembered.lookup name with
        | some (path, _) =>
          act (Act.printLine (if operands.length > 1 then name ++ '\t' :: path else path))
          return true
        | none => lacks
      else if letters.contains 'd' then
        if (s.remembered.lookup name).isNone then lacks
        else
          disregard name
          return true
      else if name.contains '/' || isOwn s name then return true
      else
        disregard name
        match ← locate none 0 name with
        | .ok _ => return true
        | .error _ => lacks
    return if results.all id then 0 else 1

end StubRelease.Shell.Builtin
