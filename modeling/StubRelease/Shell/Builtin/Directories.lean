/-
# StubRelease.Shell.Builtin.Directories -- where a shell stands

Commands that change a shell's directory and say which it is. The path that led there is kept as it was
written, links and all, as long as it still leads there; left directories can be come back to. What new files
may be done with is set here too.
-/
import StubRelease.Shell.Builtin.Variables

namespace StubRelease.Shell.Builtin

open Eval

/-- A full path without the pieces that lead nowhere. Two slashes at its start are kept, three are one. -/
def tidy (path : Text) : Text :=
  let pieces := (Text.splitAt '/' path).foldl (fun (kept : List Text) piece =>
    if piece.isEmpty || piece = ['.'] then kept
    else if piece = ['.', '.'] then kept.dropLast
    else kept ++ [piece]) []
  let isDouble := "//".toList.isPrefixOf path && path[2]? ≠ some '/'
  (if isDouble then ['/', '/'] else ['/']) ++ Text.join ['/'] pieces

/-- The full path of the directory of a shell's process. -/
def physicalDir (s : State) : Text := Text.ofBytes (Store.placeText s.process.store.cwd)

/-- The directory as the shell came to it. -/
def currentDir (s : State) : Text :=
  match s.value? "PWD".toList with
  | some path =>
    let leads := match s.process.store.placeOf true path.bytes with
      | .ok place => place == s.process.store.cwd
      | .error _ => false
    if path.head? = some '/' && leads then path else physicalDir s
  | none => physicalDir s

/-- Whether a path says itself where it begins. -/
def isAnchored (path : Text) : Bool :=
  path.head? = some '/' || ((Text.splitAt '/' path).head?).any fun piece => piece = ['.'] || piece = ['.', '.']

/-- The path of a directory that is found in those where directories are looked for, and whether it is one that
had to be looked for. -/
def lookedFor (s : State) (dir : Text) : Text × Bool :=
  match s.value? "CDPATH".toList with
  | some search =>
    if isAnchored dir then (dir, false)
    else
      match (Text.splitAt ':' search).find? fun (base : Text) =>
          s.process.store.isDir (if base.isEmpty then dir else base ++ '/' :: dir).bytes with
      | some base => if base.isEmpty then (dir, false) else (base ++ '/' :: dir, true)
      | none => (dir, false)
  | none => (dir, false)

def cd : Builtin := fun _ args => do
  refuseOptions "LPe@" args
  let s ← get
  let isOption (a : Text) : Bool := a = "-P".toList || a = "-L".toList || a = "--".toList
  let physical := (args.takeWhile isOption).contains "-P".toList
  let operands := args.dropWhile isOption
  let bash := s.dialect = .bash
  if operands.length > 1 && bash then refuse 1 "too many arguments".toList
  else
    let back := operands.head? = some ['-']
    let wanted := match operands with
      | [] => s.value? "HOME".toList
      | ['-'] :: _ => s.value? "OLDPWD".toList
      | dir :: _ => some dir
    match if bash then wanted else some (wanted.getD []) with
    | none => refuse 1 (if back then "OLDPWD not set" else "HOME not set").toList
    | some [] =>
      if bash then return 0
      else
        let here := currentDir s
        assign "OLDPWD".toList here
        assign "PWD".toList here
        if back then act (Act.printLine here)
        return 0
    | some wanted =>
      let (dir, isFound) := lookedFor s wanted
      let here := currentDir s
      let path := if dir.head? = some '/' then dir
        else if here.getLast? = some '/' then here ++ dir
        else here ++ '/' :: dir
      let path := if physical then path else tidy path
      let store := s.process.store
      let fail (fault : IoFault) : Eval Nat :=
        if bash then refuse 1 (wanted ++ ": ".toList ++ Act.reason fault)
        else abort ("can't cd to ".toList ++ wanted)
      if dir.head? ≠ some '/' && !store.isDir dir.bytes && !store.isDir path.bytes then
        fail (if store.present dir.bytes then .os .notDirectory else .notFound)
      else
        match store.placeOf true path.bytes with
        | .error fault => fail fault
        | .ok place =>
          if !store.isDir path.bytes then fail (.os .notDirectory)
          else
            act (modify fun p => p.setStore { p.store with cwd := place })
            let now := if physical then Text.ofBytes (Store.placeText place) else path
            assign "OLDPWD".toList here
            assign "PWD".toList now
            if back || isFound then act (Act.printLine now)
            return 0

def pwd : Builtin := fun _ args => do
  refuseOptions "LP" args
  let s ← get
  act (Act.printLine (if args.contains ['-', 'P'] then physicalDir s else currentDir s))
  return 0

/-- A directory as lists of directories show it. -/
def shownDir (s : State) (path : Text) : Text :=
  match s.value? "HOME".toList with
  | some home =>
    if path = home then ['~']
    else if (home ++ ['/']).isPrefixOf path then '~' :: path.drop home.length
    else path
  | none => path

/-! ## Directories that are kept -/

/-- The place that a number with its sign names in a list of a length: from the left from 0 on, or from the
right. -/
def placeOf? (length : Nat) (arg : Text) : Option Nat :=
  match arg with
  | '+' :: digits => (Text.toNat? digits).filter (· < length)
  | '-' :: digits => ((Text.toNat? digits).filter (· < length)).map (length - 1 - ·)
  | _ => none

/-- Whether an argument is a number with its sign. -/
def isPlace (arg : Text) : Bool := (arg.head? = some '+' || arg.head? = some '-') && (Text.toNat? (arg.drop 1)).isSome

/-- Refuses the number of a directory that is not kept. -/
def notKept (s : State) (arg : Text) : Eval Nat :=
  if s.kept.isEmpty then refuse 1 "directory stack empty".toList
  else refuse 1 (arg ++ ": directory stack index out of range".toList)

/-- Prints the directory and those that are kept. -/
def dirs : Builtin := fun _ args => do
  let s ← get
  let letters := (args.filter fun a => !isPlace a).flatten
  let full := currentDir s :: s.kept
  let all := if letters.contains 'l' then full else full.map (shownDir s)
  match args.find? isPlace with
  | some arg =>
    match placeOf? all.length arg with
    | some i =>
      act (Act.printLine (all.getD i []))
      return 0
    | none => notKept s arg
  | none =>
    if letters.contains 'c' then set { s with kept := [] }
    else if letters.contains 'v' then
      for (dir, i) in all.zipIdx do
        let n := Text.ofNat i
        act (Act.printLine (List.replicate (2 - n.length) ' ' ++ n ++ ' ' :: ' ' :: dir))
    else if letters.contains 'p' then all.forM fun dir => act (Act.printLine dir)
    else act (Act.printLine (Text.unwords all))
    return 0

/-- Changes to the first of some directories, keeps the others, and shows them. -/
def standAt (name : Text) : List Text → Eval Nat
  | [] => return 0
  | dir :: kept => do
    let status ← cd name [dir]
    if status = 0 then
      modify fun s => { s with kept }
      dirs name []
    else return status

/-- Changes the directory and keeps the one before, or turns the list of those that are kept. -/
def pushd : Builtin := fun name args => do
  let s ← get
  let all := currentDir s :: s.kept
  match args, s.kept with
  | [], [] => refuse 1 "no other directory".toList
  | [], last :: kept => standAt name (last :: currentDir s :: kept)
  | ['-', 'n'] :: dir :: _, _ =>
    set { s with kept := dir :: s.kept }
    dirs name []
  | dir :: _, _ =>
    if isPlace dir then
      match placeOf? all.length dir with
      | some i => standAt name (all.drop i ++ all.take i)
      | none => notKept s dir
    else
      let status ← cd name [dir]
      if status = 0 then
        modify fun s => { s with kept := all }
        dirs name []
      else return status

/-- Changes to the directory that was kept last, or takes another one off the list. -/
def popd : Builtin := fun name args => do
  let s ← get
  let all := currentDir s :: s.kept
  match args, s.kept with
  | _, [] => refuse 1 "directory stack empty".toList
  | ['-', 'n'] :: _, _ :: kept =>
    set { s with kept }
    dirs name []
  | arg :: _, kept =>
    match placeOf? all.length arg with
    | some 0 => standAt name kept
    | some i =>
      set { s with kept := kept.eraseIdx (i - 1) }
      dirs name []
    | none => notKept s arg
  | [], kept => standAt name kept

/-! ## The permissions of new files -/

/-- The three bits of a class of users in a number of permissions. -/
def bitsOf (class' : Char) (mode : Nat) : Nat :=
  match class' with
  | 'u' => mode / 64 % 8
  | 'g' => mode / 8 % 8
  | _ => mode % 8

/-- What is allowed after some classes of users are given permissions, among them those that other classes had
before. The number bounds the operators. -/
def granted (before : Nat) (who : Text) : Nat → Nat → Text → Option Nat
  | 0, _, _ => none
  | _, mode, [] => some mode
  | n + 1, mode, operator :: rest =>
    let isLetter (c : Char) : Bool := "rwxXstugo".toList.contains c
    let letters := rest.takeWhile isLetter
    let value (c : Char) : Nat :=
      match c with
      | 'r' => 4
      | 'w' => 2
      | 'x' => 1
      | 'X' => if before &&& 0o111 = 0 then 0 else 1
      | 'u' | 'g' | 'o' => bitsOf c before
      | _ => 0
    let bits := letters.foldl (fun bits c => bits ||| value c) 0
    let meant (c : Char) : Bool := who.isEmpty || who.contains 'a' || who.contains c
    let change (c : Char) : Nat :=
      let old := bitsOf c mode
      if !meant c then old
      else
        match operator with
        | '+' => old ||| bits
        | '-' => old &&& (7 - bits)
        | _ => bits
    if !"+-=".toList.contains operator then none
    else granted before who n (64 * change 'u' + 8 * change 'g' + change 'o') (rest.drop letters.length)

/-- What new files lack after a change in letters, which names what is allowed. -/
def maskOf? (mask : Nat) (t : Text) : Option Nat :=
  ((Text.splitAt ',' t).foldlM (fun mode (clause : Text) =>
    let who := clause.takeWhile "ugoa".toList.contains
    let rest := clause.drop who.length
    if rest.isEmpty then none else granted (0o777 - mask) who (rest.length + 1) mode rest) (0o777 - mask)).map (0o777 - ·)

/-- Shows or sets the permissions that new files lack. -/
def umask : Builtin := fun _ args => do
  let s ← get
  refuseOptions (if s.dialect = .bash then "Sp" else "S") args
  let letters (n : Nat) : Text :=
    (if n &&& 4 = 0 then ['r'] else []) ++ (if n &&& 2 = 0 then ['w'] else []) ++ (if n &&& 1 = 0 then ['x'] else [])
  let digits := Nat.toDigits 8 s.mask
  let number := List.replicate (4 - digits.length) '0' ++ digits
  match args with
  | [] =>
    act (Act.printLine number)
    return 0
  | [['-', 'p']] =>
    act (Act.printLine ("umask ".toList ++ number))
    return 0
  | ['-', 'S'] :: _ =>
    act (Act.printLine ("u=".toList ++ letters (s.mask / 64) ++ ",g=".toList ++ letters (s.mask / 8 % 8)
      ++ ",o=".toList ++ letters (s.mask % 8)))
    return 0
  | mode :: _ =>
    if mode.head?.any Char.isDigit then
      if mode.all fun c => '0' ≤ c && c ≤ '7' then
        set { s with mask := (Text.takeDigits 8 0 mode).1 % 512 }
        return 0
      else if s.dialect = .bash then refuse 1 (mode ++ ": octal number out of range".toList)
      else abort ("Illegal number: ".toList ++ mode)
    else
      match maskOf? s.mask mode with
      | some mask =>
        set { s with mask }
        return 0
      | none =>
        if s.dialect = .bash then refuse 1 (mode ++ ": invalid symbolic mode operator".toList)
        else abort ("Illegal mode: ".toList ++ mode)

end StubRelease.Shell.Builtin
