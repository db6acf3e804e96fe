/-
# StubRelease.Shell.Utility.Find -- finding files

Every file below some directories is put to an expression of questions and actions, a directory before or
after what it holds. An expression that has no action of its own prints the files it is true of.
-/
import StubRelease.Shell.Pattern
import StubRelease.Shell.Utility.Trees

namespace StubRelease.Shell.Utility

open Act

namespace Find

/-- What files are put to. -/
inductive Query where
  | constant (value : Bool)
  | name (pattern : Pattern) (anyCase wholePath : Bool)
  | kind (letters : Text)
  | empty
  | executable
  | newer (path : Text)
  /-- Compares a number of units of some bytes; the sign says how. -/
  | size (sign : Option Char) (n unit : Nat)
  | print (ending : Char)
  | delete
  /-- A program with arguments, `\x7b\x7d` standing for the file. -/
  | program (words : List Text)
  /-- A program that is given all files at the end. -/
  | programOfAll (words : List Text)
  | prune
  | quit
  | negate (query : Query)
  | both (first second : Query)
  | either (first second : Query)
  | last (first second : Query)

namespace Query

/-- Whether a query does something, so that the files need not be printed. -/
def acts : Query → Bool
  | print _ | delete | program _ | programOfAll _ => true
  | negate q => q.acts
  | both p q | either p q | last p q => p.acts || q.acts
  | _ => false

/-- Whether a query removes files, so that a directory comes after what it holds. -/
def deletes : Query → Bool
  | delete => true
  | negate q => q.deletes
  | both p q | either p q | last p q => p.deletes || q.deletes
  | _ => false

/-- The programs that are given all files. -/
def programsOfAll : Query → List (List Text)
  | programOfAll words => [words]
  | negate q => q.programsOfAll
  | both p q | either p q | last p q => p.programsOfAll ++ q.programsOfAll
  | _ => []

end Query

/-- What holds for the whole search. -/
structure Limits where
  minDepth : Nat
  maxDepth : Option Nat
  depthFirst : Bool

/-- What is left of the arguments, and the limits found among them. -/
structure Rest where
  words : List Text
  limits : Limits

abbrev Reader := StateT Rest (Except Text)

/-- The argument of an operator. -/
def argument (operator : Text) : Reader Text := do
  match (← get).words with
  | word :: words =>
    modify fun r => { r with words }
    return word
  | [] => throw ("missing argument to \x60".toList ++ operator ++ ['\''])

/-- The words of a program up to `;` or `+`. -/
def programWords (operator : Text) : Reader Query := do
  let words := (← get).words
  let single := words.takeWhile (· ≠ [';'])
  let several := words.takeWhile (· ≠ ['+'])
  let braces : Text := ['\x7b', '\x7d']
  if several.length < single.length && several.getLast? = some braces && several.length > 1 then
    modify fun r => { r with words := words.drop (several.length + 1) }
    return .programOfAll several.dropLast
  else if single.length < words.length && !single.isEmpty then
    modify fun r => { r with words := words.drop (single.length + 1) }
    return .program single
  else throw ("missing argument to \x60".toList ++ operator ++ ['\''])

/-- A number with a sign and a unit. -/
def sizeOf (t : Text) : Option Query :=
  let (sign, t) := match t with
    | '+' :: t => (some '+', t)
    | '-' :: t => (some '-', t)
    | t => (none, t)
  let digits := t.takeWhile Char.isDigit
  let unit := match t.drop digits.length with
    | [] | ['b'] => some 512
    | ['c'] => some 1
    | ['w'] => some 2
    | ['k'] => some 1024
    | ['M'] => some (1024 * 1024)
    | ['G'] => some (1024 * 1024 * 1024)
    | _ => none
  if digits.isEmpty then none else unit.map fun u => .size sign (Text.number digits) u

def patternOf (t : Text) (anyCase : Bool) : Pattern :=
  Pattern.read .usual ((if anyCase then t.map Char.toLower else t).map fun c => ⟨c, false⟩)

/-- A query that is one operator with its arguments. -/
def single (operator : Text) : Reader Query := do
  match String.ofList operator with
  | "-true" => return .constant true
  | "-false" => return .constant false
  | "-name" => return .name (patternOf (← argument operator) false) false false
  | "-iname" => return .name (patternOf (← argument operator) true) true false
  | "-path" | "-wholename" => return .name (patternOf (← argument operator) false) false true
  | "-ipath" | "-iwholename" => return .name (patternOf (← argument operator) true) true true
  | "-type" | "-xtype" =>
    let kinds ← argument operator
    match (Text.splitAt ',' kinds).find? fun k => !(["f", "d", "l", "p", "s", "b", "c"].contains (String.ofList k)) with
    | some k => throw ("Unknown argument to -type: ".toList ++ k.take 1)
    | none => return .kind kinds
  | "-empty" => return .empty
  | "-executable" => return .executable
  | "-readable" | "-writable" => return .constant true
  | "-newer" => return .newer (← argument operator)
  | "-size" =>
    let t ← argument operator
    match sizeOf t with
    | some q => return q
    | none => throw ("Invalid argument \x60".toList ++ t ++ "' to -size".toList)
  | "-perm" =>
    let t ← argument operator
    return if t.contains '1' || t.contains 'x' || t.contains '5' || t.contains '7' then .executable else .constant true
  | "-mindepth" | "-maxdepth" =>
    let t ← argument operator
    match Text.toNat? t with
    | some n =>
      if operator = "-mindepth".toList then
        modify fun r => { r with limits := { r.limits with minDepth := n } }
      else modify fun r => { r with limits := { r.limits with maxDepth := some n } }
      return .constant true
    | none =>
      throw ("Expected a positive decimal integer argument to ".toList ++ operator ++ ", but got '".toList
        ++ t ++ ['\''])
  | "-depth" | "-d" =>
    modify fun r => { r with limits := { r.limits with depthFirst := true } }
    return .constant true
  | "-mount" | "-xdev" | "-noleaf" | "-follow" | "-nowarn" | "-warn" | "-daystart" => return .constant true
  | "-print" => return .print '\n'
  | "-print0" => return .print '\x00'
  | "-delete" => return .delete
  | "-exec" | "-execdir" => programWords operator
  | "-prune" => return .prune
  | "-quit" => return .quit
  | _ =>
    if operator.head? = some '-' then throw ("unknown predicate \x60".toList ++ operator ++ ['\''])
    else throw ("paths must precede expression: \x60".toList ++ operator ++ ['\''])

/-- Whether a word is one of some. -/
def isOneOf (words : List String) (t : Text) : Bool := words.contains (String.ofList t)

mutual

/-- Queries the last of which counts. -/
def lastOf : Nat → Reader Query
  | 0 => throw "expression is too deep".toList
  | n + 1 => do
    let first ← anyOf n
    match (← get).words with
    | [','] :: words =>
      modify fun r => { r with words }
      return .last first (← lastOf n)
    | _ => return first

/-- Queries one of which has to be true. -/
def anyOf : Nat → Reader Query
  | 0 => throw "expression is too deep".toList
  | n + 1 => do
    let first ← allOf n
    match (← get).words with
    | word :: words =>
      if isOneOf ["-o", "-or"] word then
        modify fun r => { r with words }
        return .either first (← anyOf n)
      else return first
    | [] => return first

/-- Queries all of which have to be true. -/
def allOf : Nat → Reader Query
  | 0 => throw "expression is too deep".toList
  | n + 1 => do
    let first ← one n
    match (← get).words with
    | word :: words =>
      if isOneOf ["-a", "-and"] word then
        modify fun r => { r with words }
        return .both first (← allOf n)
      else if isOneOf ["-o", "-or", ",", ")"] word then return first
      else return .both first (← allOf n)
    | [] => return first

/-- One query. -/
def one : Nat → Reader Query
  | 0 => throw "expression is too deep".toList
  | n + 1 => do
    match (← get).words with
    | [] => throw "invalid expression".toList
    | word :: words =>
      modify fun r => { r with words }
      if isOneOf ["!", "-not"] word then return .negate (← one n)
      else if word = ['('] then
        let inner ← lastOf n
        match (← get).words with
        | [')'] :: words =>
          modify fun r => { r with words }
          return inner
        | _ => throw "invalid expression; I was expecting to find a ')' somewhere but did not see one.".toList
      else if isOneOf ["-o", "-or", "-a", "-and", ",", ")"] word then
        throw ("invalid expression; you have used a binary operator '".toList ++ word
          ++ "' with nothing before it.".toList)
      else single word

end

/-- Reads a whole expression. -/
def read (words : List Text) : Except Text (Query × Limits) :=
  if words.isEmpty then .ok (.print '\n', ⟨0, none, false⟩)
  else
    match (lastOf (4 * words.length + 8)).run ⟨words, ⟨0, none, false⟩⟩ with
    | .error e => .error e
    | .ok (query, rest) =>
      if !rest.words.isEmpty then .error "invalid expression; you have too many ')'".toList
      else
        let query := if query.acts then query else .both query (.print '\n')
        .ok (query, { rest.limits with depthFirst := rest.limits.depthFirst || query.deletes })

/-- What a search has come to. -/
structure Search where
  status : Nat
  /-- Whether what the directory holds is left out. -/
  pruned : Bool
  ended : Bool
  /-- The files that programs are given at the end. -/
  collected : List (List Text × Text)

abbrev Searching := StateT Search Act

/-- Runs a program by name and gives its status. -/
abbrev RunNamed := List Text → Act Nat

/-- Puts a word in place of the braces in another one. -/
def fillIn (file : Text) : Text → Text
  | '\x7b' :: '\x7d' :: rest => file ++ fillIn file rest
  | c :: rest => c :: fillIn file rest
  | [] => []

/-- Complains of a file. -/
def blame (name path : Text) (fault : IoFault) : Searching Unit := do
  let _ ← (failAs name 1 (quote path ++ ": ".toList ++ reason fault) : Act Nat)
  modify fun r => { r with status := 1 }

/-- Puts a file to a query. -/
def holds (name : Text) (run : RunNamed) (path : Text) (node : Node) : Query → Searching Bool
  | .constant value => return value
  | .name pattern anyCase wholePath => do
    let t := if wholePath then path else lastPart path
    return pattern.isMatch (if anyCase then t.map Char.toLower else t)
  | .kind letters =>
    return match node with
      | .file _ _ => letters.contains 'f'
      | .dir _ => letters.contains 'd'
      | .link _ => letters.contains 'l'
  | .empty =>
    return match node with
      | .file content _ => content.bytes.isEmpty
      | .dir entries => entries.isEmpty
      | .link _ => false
  | .executable => return match (← (store : Act Store)).nodeAt true path.bytes with
    | .ok (.file _ executable) => executable
    | .ok _ => true
    | .error _ => false
  | .newer _ => return false
  | .size sign n unit =>
    let bytes := match node with
      | .file content _ => content.bytes.length
      | _ => 0
    let units := (bytes + unit - 1) / unit
    return match sign with
      | some '+' => n < units
      | some _ => units < n
      | none => units = n
  | .print ending => do
    (print (path ++ [ending]) : Act Unit)
    return true
  | .delete => do
    if path = ['.'] then return true
    else
      let removed ← (files (match node with
        | .dir _ => Files.removeDir path.bytes
        | _ => Files.removeFile path.bytes) : Act (Except IoFault Unit))
      match removed with
      | .ok () => return true
      | .error fault =>
        let _ ← (failAs name 1 ("cannot delete ".toList ++ quote path ++ ": ".toList ++ reason fault) : Act Nat)
        modify fun r => { r with status := 1 }
        return false
  | .program words => do
    let status ← (run (words.map (fillIn path)) : Act Nat)
    return status = 0
  | .programOfAll words => do
    modify fun r => { r with collected := r.collected ++ [(words, path)] }
    return true
  | .prune => do
    modify fun r => { r with pruned := true }
    return true
  | .quit => do
    modify fun r => { r with ended := true }
    return true
  | .negate q => return !(← holds name run path node q)
  | .both p q => do if ← holds name run path node p then holds name run path node q else return false
  | .either p q => do if ← holds name run path node p then return true else holds name run path node q
  | .last p q => do
    let _ ← holds name run path node p
    holds name run path node q

/-- Puts a file to a query if the search is not over and the file is deep enough. -/
def ask (name : Text) (run : RunNamed) (query : Query) (limits : Limits) (depth : Nat) (path : Text)
    (node : Node) : Searching Unit := do
  if !(← get).ended && limits.minDepth ≤ depth then
    let _ ← holds name run path node query

mutual

/-- Searches a file, and below it. -/
def visit (name : Text) (run : RunNamed) (query : Query) (limits : Limits) (depth : Nat) (path : Text) :
    Node → Searching Unit
  | .dir entries => do
    modify fun r => { r with pruned := false }
    if !limits.depthFirst then ask name run query limits depth path (.dir entries)
    let descends := !(← get).ended && !((← get).pruned && !limits.depthFirst)
      && limits.maxDepth.all (depth < ·)
    if descends then
      if (← (store : Act Store)).isDir path.bytes then
        visitAll name run query limits (depth + 1) path entries
      else if !entries.isEmpty || !limits.depthFirst then blame name path .notFound
    if limits.depthFirst then
      match (← (store : Act Store)).nodeAt false path.bytes with
      | .ok now => ask name run query limits depth path now
      | .error _ => pure ()
  | node => ask name run query limits depth path node

/-- Searches what a directory holds. -/
def visitAll (name : Text) (run : RunNamed) (query : Query) (limits : Limits) (depth : Nat) (dir : Text) :
    List (Name × Node) → Searching Unit
  | [] => pure ()
  | (file, node) :: rest => do
    let path := below dir (Text.ofBytes file)
    if (← (store : Act Store)).hasEntry path.bytes then
      visit name run query limits depth path node
    visitAll name run query limits depth dir rest

end

/-- Searches everything below some paths. -/
def search (name : Text) (run : RunNamed) (query : Query) (limits : Limits) (follow : Bool) (paths : List Text) :
    Searching Unit := do
  for path in paths do
    match (← (store : Act Store)).nodeAt follow path.bytes with
    | .ok node => visit name run query limits 0 path node
    | .error fault => blame name path fault
  for words in query.programsOfAll do
    let files := ((← get).collected.filter (·.1 = words)).map (·.2)
    if !files.isEmpty then
      let status ← (run (words ++ files) : Act Nat)
      if status ≠ 0 then modify fun r => { r with status := 1 }

end Find

/-- Finds files; programs are started by `run`. -/
def find (run : Find.RunNamed) : Command := fun name args => do
  let leads (t : Text) : Bool := Find.isOneOf ["-H", "-L", "-P"] t
  let follow := (args.takeWhile leads).contains "-L".toList || (args.takeWhile leads).contains "-H".toList
  let args := args.dropWhile leads
  let isPath (t : Text) : Bool := !((t.head? = some '-' && t.length > 1) || Find.isOneOf ["(", ")", "!", ","] t)
  let paths := args.takeWhile isPath
  match Find.read (args.dropWhile isPath) with
  | .error e => failAs name 1 e
  | .ok (query, limits) =>
    let paths : List Text := if paths.isEmpty then [['.']] else paths
    let ((), found) ← (Find.search name run query limits follow paths).run ⟨0, false, false, []⟩
    return found.status

end StubRelease.Shell.Utility
