/-
# StubRelease.Shell.Utility.Search -- finding lines

Lines that match one of some regular expressions are printed, counted, or only told of. Directories are gone
through in ascending order of names.
-/
import StubRelease.Shell.Utility.Filters

namespace StubRelease.Shell.Utility

open Act

/-- What lines are looked for: expressions one of which has to match. -/
structure Sought where
  regex : Option Regex
  ignoreCase : Bool
  inverted : Bool

namespace Sought

/-- The parts of a line that match, each with where it begins. -/
def parts (s : Sought) (line : Text) : Nat → Nat → List (Nat × Text)
  | 0, _ => []
  | n + 1, from' =>
    match s.regex with
    | none => []
    | some r =>
      match r.findFrom? s.ignoreCase from' line with
      | none => []
      | some m =>
        let next := m.before.length + max 1 m.text.length
        (m.before.length, m.text) :: (if next ≤ line.length then parts s line n next else [])

/-- Whether a line is one of those that are looked for. -/
def selects (s : Sought) (line : Text) : Bool :=
  (s.regex.any fun r => (r.find? s.ignoreCase line).isSome) != s.inverted

end Sought

/-- What is told of the lines that are found. -/
inductive Told where
  | lines
  /-- The parts of lines that match. -/
  | parts
  | count
  /-- The names of files that have such a line. -/
  | names
  /-- The names of files that have none. -/
  | others
  | nothing
deriving DecidableEq

/-- What is done about a file that is no text. -/
inductive Untextual where
  /-- It is only said that it has such a line. -/
  | mentioned
  | likeText
  /-- It has no such line. -/
  | passedOver
deriving DecidableEq

/-- How found lines are told of. -/
structure Telling where
  told : Told
  /-- Whether the name of the file stands in front. -/
  named : Bool
  numbered : Bool
  /-- Whether it is told how many bytes come before. -/
  offsets : Bool
  /-- Whether a tab stands before a line, and numbers have the same width. -/
  aligned : Bool
  /-- What stands after a name. -/
  nameEnd : Option Char
  before : Nat
  after : Nat
  /-- What stands between lines that do not follow each other. -/
  separator : Option Text
  /-- How many lines are looked for. -/
  most : Option Nat
  untextual : Untextual
  /-- What ends a line. -/
  ends : Char

namespace Telling

/-- What stands in front of a line or of a part of one. -/
def lead (t : Telling) (label : Text) (width : Nat) (mark : Char) (number offset : Nat) (isEmpty : Bool) : Text :=
  let shown (n : Nat) : Text :=
    let digits := Text.ofNat n
    (if t.aligned then List.replicate (width - digits.length) ' ' else []) ++ digits ++ [mark]
  (if t.named then label ++ [t.nameEnd.getD mark] else [])
    ++ (if t.numbered then shown number else [])
    ++ (if t.offsets then shown offset else [])
    ++ (if t.aligned && (t.named || t.numbered || t.offsets) && !isEmpty then ['\t'] else [])

/-- The lines that are shown, each with its number and whether it was found or only stands near one. -/
def near (t : Telling) (selected : List Nat) (count : Nat) : List (Nat × Bool) :=
  let found := t.most.elim selected selected.take
  (List.range count).filterMap fun n =>
    if found.contains n then some (n, true)
    else if found.any fun k => (k < n && n ≤ k + t.after) || (n < k && k ≤ n + t.before) then some (n, false)
    else none

/-- What is shown of the lines of a file. `used` says whether something was shown before. -/
def shown (t : Telling) (s : Sought) (used : Bool) (label : Text) (content : Text) (lines : List Text)
    (selected : List Nat) : Text :=
  let width := (Text.ofNat content.length).length
  let starts := (lines.scanl (fun n l => n + l.length + 1) 0).toArray
  let all := lines.toArray
  let one (n : Nat) (hit : Bool) : Text :=
    let line := all.getD n []
    let mark := if hit then ':' else '-'
    match t.told with
    | .parts =>
      if hit = s.inverted then []
      else
        ((s.parts line (line.length + 1) 0).filter (!·.2.isEmpty)).flatMap fun (start, part) =>
          t.lead label width (if s.inverted then '-' else ':') (n + 1) (starts.getD n 0 + start) false ++ part
            ++ [t.ends]
    | _ => t.lead label width mark (n + 1) (starts.getD n 0) line.isEmpty ++ line ++ [t.ends]
  ((t.near selected lines.length).foldl (fun (done, last, used) (n, hit) =>
    let apart := used && (last : Option Nat) ≠ some n
    let between : Text := match t.separator with
      | some sep => if apart then sep ++ ['\n'] else []
      | none => []
    (done ++ between ++ one n hit, some (n + 1), true)) (([] : Text), none, used)).1

end Telling

/-- Tells of the lines of one file, and says whether one was found. `used` says whether lines were shown before. -/
def tellFile (name : Text) (s : Sought) (t : Telling) (used : Bool) (label : Text) (content : Text) : Act Bool := do
  let pieces := Text.splitAt t.ends content
  let ls := if pieces.getLast? = some [] then pieces.dropLast else pieces
  let isBinary := t.ends = '\n' && t.untextual ≠ .likeText && content.contains '\x00'
  if isBinary && t.untextual = .passedOver then return false
  else
    let selected := (ls.zipIdx.filter fun (l, _) => s.selects l).map (·.2)
    let found := t.most.elim selected selected.take
    let ended := label ++ [t.nameEnd.getD '\n']
    match t.told with
    | .nothing => pure ()
    | .names => if !found.isEmpty then print ended
    | .others => if found.isEmpty then print ended
    | .count =>
      printLine ((if t.named then label ++ [t.nameEnd.getD ':'] else []) ++ Text.ofNat found.length)
    | .lines | .parts =>
      if isBinary then
        if !found.isEmpty then complain (name ++ ": ".toList ++ label ++ ": binary file matches".toList)
      else print (t.shown s used label content ls selected)
    return !found.isEmpty

mutual

/-- The files in a tree, links left out, and so are those that are not wanted. -/
def filesBelow (wanted : Bool → Text → Bool) (path : Text) : Node → List Text
  | .file _ _ => if wanted false path then [path] else []
  | .link _ => []
  | .dir entries => if wanted true path then filesIn wanted path entries else []

def filesIn (wanted : Bool → Text → Bool) (path : Text) : List (Name × Node) → List Text
  | [] => []
  | (name, node) :: rest =>
    let sub := if path.isEmpty then Text.ofBytes name
      else if path.getLast? = some '/' then path ++ Text.ofBytes name
      else path ++ '/' :: Text.ofBytes name
    filesBelow wanted sub node ++ filesIn wanted path rest

end

/-- Whether a file's name matches one of some patterns. -/
def nameMatches (patterns : List Text) (path : Text) : Bool :=
  patterns.any fun p => (Pattern.read .usual (p.map (⟨·, false⟩))).isMatch (lastPart path)

def grepFlags : List Flag :=
  Flag.letters "uU" ++ [.plain "E" ["extended-regexp"], .plain "F" ["fixed-strings"], .plain "G" ["basic-regexp"],
    .plain "P" ["perl-regexp"], .valued "e" ["regexp"], .valued "f" ["file"], .plain "i" ["ignore-case"],
    .plain "y" [], .plain "exact" ["no-ignore-case"], .plain "v" ["invert-match"], .plain "w" ["word-regexp"],
    .plain "x" ["line-regexp"], .plain "c" ["count"], .plain "l" ["files-with-matches"],
    .plain "L" ["files-without-match"], .plain "n" ["line-number"], .plain "o" ["only-matching"],
    .plain "q" ["quiet", "silent"], .plain "s" ["no-messages"], .plain "r" ["recursive"],
    .plain "R" ["dereference-recursive"], .plain "h" ["no-filename"], .plain "H" ["with-filename"],
    .valued "m" ["max-count"], .valued "A" ["after-context"], .valued "B" ["before-context"],
    .valued "C" ["context"], ⟨"color", ["color", "colour"], .attached⟩, .valued "include" ["include"],
    .valued "exclude" ["exclude"], .valued "exdir" ["exclude-dir"], .plain "b" ["byte-offset"], .plain "a" ["text"],
    .plain "I" [], .valued "binary" ["binary-files"], .plain "z" ["null-data"], .plain "Z" ["null"],
    .plain "T" ["initial-tab"], .valued "d" ["directories"], .valued "D" ["devices"], .valued "label" ["label"],
    .plain "buffered" ["line-buffered"], .valued "sep" ["group-separator"], .plain "nosep" ["no-group-separator"]]

/-- Digits among letters after a dash are how many lines are shown around those that are found. -/
def contextDigits : List Text → List Text
  | [] => []
  | ['-', '-'] :: rest => ['-', '-'] :: rest
  | ('-' :: letters) :: rest =>
    let plain := letters.takeWhile fun c => !"efmABCdD-".toList.contains c
    let digits := plain.filter Char.isDigit
    let own := letters.drop plain.length
    let kept := plain.filter (!·.isDigit) ++ own
    let around : List Text := if digits.isEmpty then [] else [['-', 'C'], digits]
    let here : List Text := around ++ (if kept.isEmpty && !digits.isEmpty then [] else ['-' :: kept])
    match own, rest with
    | [_], value :: rest => here ++ value :: contextDigits rest
    | _, rest => here ++ contextDigits rest
  | word :: rest => word :: contextDigits rest

/-- Whether a file is the one that is printed to. -/
def isOutput (path : Text) : Act Bool := do
  let p ← get
  let source : Option (List Name) :=
    if path = ['-'] then
      match p.stream? 0 with
      | some (.file place _ _) => some place
      | _ => none
    else (p.store.placeOf true path.bytes).toOption
  return match p.stream? 1 with
    | some (.file place _ _) => decide (source = some place)
    | _ => false

/-- Finds lines; expressions are of the given form unless options name another one. -/
def grepAs (usual : Option Regex.Form) : Command := fun name args =>
  Command.withFlags grepFlags 2 (fun name a => do
    let form : Option Regex.Form :=
      match a.lastOf? ["E", "F", "G", "P"] with
      | some "E" | some "P" => some .soughtExtended
      | some "F" => none
      | some _ => some .soughtBasic
      | none => usual
    let fromFiles : List (Except (Text × IoFault) (List Text)) ← (a.all "f").mapM fun path => do
      match ← input path with
      | .ok t => return .ok (Text.lines t)
      | .error fault => return .error (path, fault)
    let bad := fromFiles.findSome? fun
      | .error (p, fault) => some (p, fault)
      | .ok _ => none
    let context := ["A", "B", "C"].flatMap a.all
    let most := (a.last? "m").map Text.toInt?
    match bad with
    | some (path, fault) => refused name 2 path fault
    | none =>
    if let some t := context.find? fun (t : Text) => (Text.toNat? t).isNone then
      failAs name 2 (t ++ ": invalid context length argument".toList)
    else if most = some none then failAs name 2 "invalid max count".toList
    else if (a.all "binary").any fun t => !(["binary", "text", "without-match"].contains (String.ofList t)) then
      failAs name 2 "unknown binary-files type".toList
    else if (a.all "d").any fun t => !(["read", "skip", "recurse"].contains (String.ofList t)) then
      misused name 1 "invalid argument for --directories".toList
    else
      let given := (a.all "e").flatMap (Text.splitAt '\n') ++ fromFiles.flatMap fun
        | .ok ls => ls
        | .error _ => []
      let hasOwn := a.has "e" || a.has "f"
      match hasOwn, a.operands with
      | false, [] =>
        complain ("Usage: ".toList ++ name ++ " [OPTION]... PATTERNS [FILE]...".toList)
        tryHelp name
        return 2
      | _, _ =>
        let patterns := if hasOwn then given else Text.splitAt '\n' (a.operands.headD [])
        let paths := if hasOwn then a.operands else a.operands.drop 1
        let read (p : Text) : Option Regex := match form with
          | some f => Regex.read? f p
          | none => some (Regex.literal p)
        match patterns.find? fun p => (read p).isNone with
        | some _ => failAs name 2 "Invalid regular expression".toList
        | none =>
          let wrap (r : Regex) : Regex :=
            let r := if a.has "w" then .seq .noWordBefore (.seq r .noWordAfter) else r
            if a.has "x" then .seq .lineStart (.seq r .lineEnd) else r
          let regexes := (patterns.filterMap read).map wrap
          let regex := match regexes with
            | [] => none
            | r :: rest => some (rest.foldl Regex.either r)
          let ignoring := a.lastOf? ["i", "y", "exact"]
          let sought : Sought := ⟨regex, ignoring.any (· ≠ "exact"), a.has "v"⟩
          let directories := if a.lastOf? ["d", "r", "R"] = some "d" then a.last? "d" else none
          let recursive := directories = some "recurse".toList || (directories.isNone && (a.has "r" || a.has "R"))
          let s ← store
          let wanted (isDir : Bool) (path : Text) : Bool :=
            if isDir then !nameMatches (a.all "exdir") path
            else ((a.all "include").isEmpty || nameMatches (a.all "include") path)
              && !nameMatches (a.all "exclude") path
          let expanded : List Text :=
            if recursive && paths.isEmpty then
              match s.nodeAt true ['.'.toNat.toUInt8] with
              | .ok node => filesBelow wanted [] node
              | .error _ => []
            else (orGiven paths).flatMap fun (path : Text) =>
              match s.nodeAt true path.bytes with
              | .ok node =>
                if path = ['-'] || (node.isDir && !recursive) then [path] else filesBelow wanted path node
              | .error _ => [path]
          let number (key : String) : Option Nat := (a.last? key).bind Text.toNat?
          let around := number "C"
          let before := (number "B").or around
          let after := (number "A").or around
          let told : Told :=
            if a.has "q" then .nothing
            else
              match a.lastOf? ["l", "L"] with
              | some "l" => .names
              | some _ => .others
              | none => if a.has "c" then .count else if a.has "o" then .parts else .lines
          let telling : Telling :=
            { told
              named := a.lastOf? ["h", "H"] ≠ some "h" && (a.has "H" || paths.length > 1
                || (recursive && (paths.isEmpty || paths.any fun (p : Text) => s.isDir p.bytes)))
              numbered := a.has "n"
              offsets := a.has "b"
              aligned := a.has "T"
              nameEnd := if a.has "Z" then some '\x00' else none
              before := before.getD 0
              after := after.getD 0
              separator :=
                if (before.isNone && after.isNone) || a.lastOf? ["sep", "nosep"] = some "nosep" then none
                else some ((a.last? "sep").getD ['-', '-'])
              most := most.join.bind fun n => if n < 0 then none else some n.toNat
              untextual :=
                match a.lastOf? ["a", "I", "binary"] with
                | some "a" => .likeText
                | some "I" => .passedOver
                | some _ =>
                  match (a.last? "binary").map String.ofList with
                  | some "text" => .likeText
                  | some "without-match" => .passedOver
                  | _ => .mentioned
                | none => .mentioned
              ends := if a.has "z" then '\x00' else '\n' }
          let shows := told = .lines || told = .parts
          let rec each (used found failed : Bool) : List Text → Act (Bool × Bool)
            | [] => return (found, failed)
            | path :: rest => do
              let isDir := path ≠ ['-'] && s.isDir path.bytes
              if isDir && directories = some "skip".toList then each used found failed rest
              else if isDir then
                if !a.has "s" then complain (name ++ ": ".toList ++ path ++ ": Is a directory".toList)
                each used found true rest
              else if shows && telling.most ≠ some 1 && (← isOutput path) then
                if !a.has "s" then
                  complain (name ++ ": ".toList ++ path ++ ": input file is also the output".toList)
                each used found true rest
              else
                match ← input path with
                | .ok t =>
                  let label := if path = ['-'] then (a.last? "label").getD "(standard input)".toList else path
                  let here ← tellFile name sought telling used label t
                  each (used || here) (found || here) failed rest
                | .error fault =>
                  if !a.has "s" then
                    let _ ← refused name 2 path fault
                  each used found true rest
          if telling.most = some 0 && told ≠ .others then return 1
          else
            let (found, failed) ← each false false false expanded
            return if found && (a.has "q" || !failed) then 0 else if failed then 2 else 1) name (contextDigits args)

end StubRelease.Shell.Utility
