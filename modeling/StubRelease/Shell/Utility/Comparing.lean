/-
# StubRelease.Shell.Utility.Comparing -- commands that compare files

Commands that say which lines two files share, where they differ first, and how one of them is made from the other.
Differences are shown in runs of lines, perhaps with lines around them.
-/
import StubRelease.Calendar.Written
import StubRelease.Shell.Difference
import StubRelease.Shell.Field
import StubRelease.Shell.Regex
import StubRelease.Shell.Utility.Filters

namespace StubRelease.Shell.Utility

open Act

/-! ## Comparing -/

/-- The lines of two sorted texts in one sequence, each with its column: the first text's own, the second's own, and
those of both. The number bounds the steps. -/
def merged : Nat → List Text → List Text → List (Nat × Text)
  | 0, _, _ => []
  | _, [], ys => ys.map (1, ·)
  | _, xs, [] => xs.map (0, ·)
  | n + 1, x :: xs, y :: ys =>
    if x = y then (2, x) :: merged n xs ys
    else if x < y then (0, x) :: merged n xs (y :: ys)
    else (1, y) :: merged n (x :: xs) ys

/-- Whether the lines of one text are not in order. It is looked at from where a line was met that only one text has,
or from the beginning if `always`. -/
def isDisordered (always : Bool) (side : Nat) (rows : List (Nat × Text)) : Bool :=
  let seen := (rows.map fun (column, _) => column ≠ 2).scanl (· || ·) always
  let own := (rows.zip (seen.drop 1)).filter fun ((column, _), _) => column = side || column = 2
  let pairs := (own.map fun ((_, line), looks) => (line, looks)).zip ((own.drop 1).map (·.1.2))
  (pairs.any fun ((before, looks), line) => looks && line < before)
    || (pairs.getLast?.any fun ((before, _), line) => line < before) && (own.getLast?.any (·.2))

def comm : Command :=
  .withFlags (Flag.letters "123i" ++ [.plain "z" ["zero-terminated"], .plain "check" ["check-order"],
    .plain "nocheck" ["nocheck-order"], .valued "delimiter" ["output-delimiter"], .plain "total" ["total"]]) 1
    fun name a => do
    match a.operands with
    | [x, y] =>
      let (read, status) ← inputs name 1 named [x, y]
      match read with
      | [(_, s), (_, t)] =>
        let delimiter := (a.last? "delimiter").getD ['\t']
        let ends := if a.has "z" then '\x00' else '\n'
        let lines (t : Text) : List Text :=
          let pieces := Text.splitAt ends t
          if pieces.getLast? = some [] then pieces.dropLast else pieces
        let (xs, ys) := (lines s, lines t)
        let rows := merged (xs.length + ys.length + 1) xs ys
        (rows.filter fun (n, _) => !a.has (toString (n + 1))).forM fun (n, line) => do
          let before := (List.range n).filter fun k => !a.has (toString (k + 1))
          print (before.flatMap (fun _ => delimiter) ++ line ++ [ends])
        if a.has "total" then
          let count (n : Nat) : Text := Text.ofNat (rows.countP (·.1 = n))
          print (Text.join delimiter [count 0, count 1, count 2, "total".toList] ++ [ends])
        let disordered := !a.has "nocheck"
          && (isDisordered (a.has "check") 0 rows || isDisordered (a.has "check") 1 rows)
        if disordered then failAs name 1 "input is not in sorted order".toList else return 0
      | _ => return status
    | [] => lacksOperand name 1
    | [x] => misused name 1 ("missing operand after ".toList ++ quoteArgument x)
    | _ :: _ :: z :: _ => misused name 1 ("extra operand ".toList ++ quoteArgument z)

/-- A text with blanks in front up to a width. -/
def rightAligned (width : Nat) (t : Text) : Text := List.replicate (width - t.length) ' ' ++ t

/-- A byte in octal digits, and as it is shown. -/
def byteShown (c : Char) : Text × Text :=
  (rightAligned 3 (Nat.toDigits 8 c.toNat), if c = '\t' then "^I".toList else if c = '\n' then "^J".toList else visible c)

def cmp : Command :=
  .withFlags [.plain "s" ["quiet", "silent"], .plain "l" ["verbose"], .plain "b" ["print-bytes"],
    .valued "n" ["bytes"], .valued "i" ["ignore-initial"]] 2 fun name a => do
    let written := (a.last? "i").map (Text.splitAt ':')
    let skips := (written.getD []) ++ a.operands.drop 2
    let size (t : Text) : Option Nat := (signedCount? t).map (·.2)
    match a.operands, skips.find? (size · |>.isNone), (a.last? "n").filter (size · |>.isNone) with
    | [], _, _ => misused name 2 ("missing operand after ".toList ++ quoteArgument name)
    | _, some bad, _ => misused name 2 ("invalid --ignore-initial value ".toList ++ quote bad)
    | _, _, some bad => misused name 2 ("invalid --bytes value ".toList ++ quote bad)
    | x :: rest, none, none =>
      let y := rest.headD ['-']
      let skip (i : Nat) : Nat :=
        let common := written.bind fun parts => (parts[i]?).or parts.head?
        max ((common.bind size).getD 0) (((a.operands[i + 2]?).bind size).getD 0)
      if a.has "s" && a.has "l" then misused name 2 "options -l and -s are incompatible".toList
      else
        let (read, status) ← inputs name 2 id [x, y]
        match read with
        | [(_, s), (_, t)] =>
          let cut (skipped : Nat) (t : Text) : Text :=
            match (a.last? "n").bind size with
            | some n => (t.drop skipped).take n
            | none => t.drop skipped
          let (s, t) := (cut (skip 0) s, cut (skip 1) t)
          if s = t then return 0
          else
            let different := (s.zip t).zipIdx.filter fun ((c, d), _) => c ≠ d
            if a.has "l" then
              /- what comes from a pipe may be of any size -/
              let stored ← (show Act Bool from return match (← get).stream? 0 with
                | some (.file ..) => true
                | _ => false)
              let sizes := [(x, s), (y, t)].filterMap fun (path, text) =>
                if path = ['-'] && !stored then none else some text.length
              let width := (Text.ofNat (sizes.min?.getD (Nat.pow 2 63 - 1))).length
              different.forM fun ((c, d), i) => do
                let (octal, shown) := byteShown c
                let (octal', shown') := byteShown d
                let bytes :=
                  if a.has "b" then
                    [octal, shown ++ List.replicate (4 - shown.length) ' ', octal', shown']
                  else [octal, octal']
                printLine (Text.unwords (rightAligned width (Text.ofNat (i + 1)) :: bytes))
            match different.head? with
            | some ((c, d), same) =>
              let place := Text.ofNat (same + 1) ++ ", line ".toList ++ Text.ofNat ((s.take same).count '\n' + 1)
              let lead := x ++ ' ' :: y
              if a.has "s" || a.has "l" then pure ()
              else if a.has "b" then
                let (octal, shown) := byteShown c
                let (octal', shown') := byteShown d
                printLine (lead ++ " differ: byte ".toList ++ place ++ " is ".toList
                  ++ Text.unwords [octal, shown, octal', shown'])
              else printLine (lead ++ " differ: char ".toList ++ place)
            | none => pure ()
            if (different.isEmpty || a.has "l") && s.length ≠ t.length && !a.has "s" then
              let same := min s.length t.length
              let shorter := if s.length < t.length then x else y
              if same = 0 then complain (name ++ ": EOF on ".toList ++ shorter ++ " which is empty".toList)
              else
                let line := (s.take same).count '\n' + 1
                let whole := (s.take same).getLast? = some '\n'
                complain (name ++ ": EOF on ".toList ++ shorter ++ " after byte ".toList ++ Text.ofNat same
                  ++ (if a.has "l" then []
                    else (if whole then ", line " else ", in line ").toList
                      ++ Text.ofNat (if whole then line - 1 else line)))
            return 1
        | _ => return status

/-! ## Differences -/

/-- A run of lines that are changed, with how many lines of either text stand before it. -/
structure Hunk where
  before : Nat
  dropped : List Text
  beforeAdded : Nat
  added : List Text

namespace Hunk

/-- The end of what is dropped. -/
def stop (h : Hunk) : Nat := h.before + h.dropped.length

def stopAdded (h : Hunk) : Nat := h.beforeAdded + h.added.length

/-- The runs of changed lines of two marked texts. The number bounds the steps. -/
def ofMarked : Nat → Nat → Nat → List (Text × Bool) → List (Text × Bool) → List Hunk
  | 0, _, _, _, _ => []
  | n + 1, i, j, xs, ys =>
    let dropped := (xs.takeWhile (·.2)).map (·.1)
    let added := (ys.takeWhile (·.2)).map (·.1)
    if dropped.isEmpty && added.isEmpty then
      match xs, ys with
      | _ :: xs, _ :: ys => ofMarked n (i + 1) (j + 1) xs ys
      | _, _ => []
    else
      ⟨i, dropped, j, added⟩
        :: ofMarked n (i + dropped.length) (j + added.length) (xs.drop dropped.length) (ys.drop added.length)

/-- Runs in groups, where few enough lines stand between them. -/
def grouped (between : Nat) : List Hunk → List (List Hunk)
  | [] => []
  | h :: rest =>
    match grouped between rest with
    | (next :: more) :: groups =>
      if next.before - h.stop ≤ between then (h :: next :: more) :: groups else [h] :: (next :: more) :: groups
    | groups => [h] :: groups

end Hunk

/-- A line behind a lead; it is said if it has no line end. -/
def ledLine (lead : String) (line : Text) : Text :=
  lead.toList ++ line ++ (if line.getLast? = some '\n' then [] else "\n\\ No newline at end of file\n".toList)

/-- How differences are shown. -/
inductive DifferenceForm where
  | plain
  /-- With some lines around them, what is dropped and what is added in one. -/
  | unified (around : Nat)
  /-- With some lines around them, first what was and then what is. -/
  | context (around : Nat)
  /-- It is only said that there are some. -/
  | brief
deriving DecidableEq, Repr

namespace DifferenceForm

/-- How many lines are shown around differences. -/
def around : DifferenceForm → Nat
  | unified n | context n => n
  | plain | brief => 0

/-- The numbers of lines, the first of them behind some others. -/
def range (before count : Nat) : Text :=
  if count ≤ 1 then Text.ofNat (before + count) else Text.ofNat (before + 1) ++ ',' :: Text.ofNat (before + count)

/-- The number of the first of some lines, and how many they are. -/
def extent (before count : Nat) : Text :=
  if count = 1 then Text.ofNat (before + 1)
  else Text.ofNat (if count = 0 then before else before + 1) ++ ',' :: Text.ofNat count

/-- A run of changed lines without lines around it. -/
def plainHunk (h : Hunk) : Text :=
  let letter := if h.added.isEmpty then 'd' else if h.dropped.isEmpty then 'a' else 'c'
  range h.before h.dropped.length ++ letter :: range h.beforeAdded h.added.length ++ ['\n']
    ++ h.dropped.flatMap (ledLine "< ")
    ++ (if letter = 'c' then "---\n".toList else [])
    ++ h.added.flatMap (ledLine "> ")

/-- Where a group of runs begins and ends in a text with some lines around it. -/
def bounds (around size : Nat) (first last : Nat) : Nat × Nat := (first - around, min size (last + around))

/-- The lines from one place up to another. -/
def between (lines : List Text) (first last : Nat) : List Text := (lines.drop first).take (last - first)

/-- A group of runs with lines around it. -/
def unifiedGroup (around : Nat) (xs ys : List Text) (group : List Hunk) : Text :=
  match group.head?, group.getLast? with
  | some first, some last =>
    let (start, stop) := bounds around xs.length first.before last.stop
    let (startAdded, stopAdded) := bounds around ys.length first.beforeAdded last.stopAdded
    let (body, place) := group.foldl (fun (shown, place) h =>
      (shown ++ (between xs place h.before).flatMap (ledLine " ") ++ h.dropped.flatMap (ledLine "-")
        ++ h.added.flatMap (ledLine "+"), h.stop)) (([] : Text), start)
    "@@ -".toList ++ extent start (stop - start) ++ " +".toList ++ extent startAdded (stopAdded - startAdded)
      ++ " @@\n".toList ++ body ++ (between xs place stop).flatMap (ledLine " ")
  | _, _ => []

/-- One text's side of a group of runs. -/
def side (lines : List Text) (lead : String) (start stop : Nat) (runs : List (Nat × List Text × Bool)) : Text :=
  let (body, place) := runs.foldl (fun (shown, place) (before, run, isBoth) =>
    (shown ++ (between lines place before).flatMap (ledLine "  ")
      ++ run.flatMap (ledLine (if isBoth then "! " else lead)), before + run.length)) (([] : Text), start)
  if runs.all fun (_, run, _) => run.isEmpty then []
  else body ++ (between lines place stop).flatMap (ledLine "  ")

/-- A group of runs with lines around it, first what was and then what is. -/
def contextGroup (around : Nat) (xs ys : List Text) (group : List Hunk) : Text :=
  match group.head?, group.getLast? with
  | some first, some last =>
    let (start, stop) := bounds around xs.length first.before last.stop
    let (startAdded, stopAdded) := bounds around ys.length first.beforeAdded last.stopAdded
    let isBoth (h : Hunk) : Bool := !h.dropped.isEmpty && !h.added.isEmpty
    "***************\n*** ".toList ++ range start (stop - start) ++ " ****\n".toList
      ++ side xs "- " start stop (group.map fun h => (h.before, h.dropped, isBoth h))
      ++ "--- ".toList ++ range startAdded (stopAdded - startAdded) ++ " ----\n".toList
      ++ side ys "+ " startAdded stopAdded (group.map fun h => (h.beforeAdded, h.added, isBoth h))
  | _, _ => []

/-- Shows runs of changed lines; the titles are those of the two texts. -/
def write (form : DifferenceForm) (title title' : Text) (xs ys : List Text) (hunks : List Hunk) : Text :=
  let groups := Hunk.grouped (2 * form.around) hunks
  let titles (lead lead' : String) : Text :=
    lead.toList ++ title ++ '\n' :: lead'.toList ++ title' ++ ['\n']
  match form with
  | plain => hunks.flatMap plainHunk
  | unified n => titles "--- " "+++ " ++ groups.flatMap (unifiedGroup n xs ys)
  | context n => titles "*** " "--- " ++ groups.flatMap (contextGroup n xs ys)
  | brief => []

end DifferenceForm

/-- How files are compared. -/
structure Comparison where
  form : DifferenceForm
  /-- What two lines are compared by. -/
  key : Text → Text
  /-- The lines that runs of changed ones are not shown for. -/
  isIdle : Text → Bool
  /-- Whether all files are taken for texts. -/
  asText : Bool
  /-- Whether it is said that files are the same. -/
  tellsSame : Bool
  /-- Whether directories in directories are compared. -/
  deep : Bool
  /-- Whether files that are missing are like empty ones. -/
  fills : Bool
  excluded : List Pattern
  labels : List Text
  /-- The options as they were given. -/
  options : List Text

namespace Comparison

/-- What a file is called. -/
def label (c : Comparison) (i : Nat) (path : Text) : Text := (c.labels[i]?).getD path

/-- The title of a file; when it was changed is not known. -/
def title (c : Comparison) (i : Nat) (path : Text) : Text :=
  let moment : String := match c.form with
    | .context _ => "%a %b %e %T %Y"
    | _ => "%Y-%m-%d %H:%M:%S.000000000 %z"
  (c.labels[i]?).getD (path ++ '\t' :: (Moment.ofSecond 0).write moment.toList)

/-- Shows how two files differ. `heads` says whether the command that would show it stands before it. -/
def showFiles (c : Comparison) (heads : Bool) (x y : Text) (s t : Bytes) : Act Nat := do
  let same : Act Nat := do
    if c.tellsSame then printLine ("Files ".toList ++ c.label 0 x ++ " and ".toList ++ c.label 1 y ++ " are identical".toList)
    return 0
  let differ (lead : String) : Act Nat := do
    printLine (lead.toList ++ c.label 0 x ++ " and ".toList ++ c.label 1 y ++ " differ".toList)
    return 1
  if s = t then same
  else if !c.asText && (s.contains 0 || t.contains 0) then
    differ (if c.form = .brief then "Files " else "Binary files ")
  else
    let xs := keptLines (Text.ofBytes s)
    let ys := keptLines (Text.ofBytes t)
    let (marks, marks') := Difference.marks c.form.around (xs.map c.key) (ys.map c.key)
    let hunks := Hunk.ofMarked (xs.length + ys.length + 1) 0 0 (xs.zip marks) (ys.zip marks')
    let hunks := hunks.filter fun h => !(h.dropped.all c.isIdle && h.added.all c.isIdle)
    if hunks.isEmpty then same
    else if c.form = .brief then differ "Files "
    else
      if heads then printLine (Text.unwords ("diff".toList :: c.options.map named ++ [c.label 0 x, c.label 1 y]))
      print (c.form.write (c.title 0 x) (c.title 1 y) xs ys hunks)
      return 1

/-- What kind of file a node is. -/
def kind : Node → Text
  | .file content _ => (if content.bytes.isEmpty then "regular empty file" else "regular file").toList
  | .dir _ => "directory".toList
  | .link _ => "symbolic link".toList

/-- The path of an entry of a directory. -/
def within (dir entry : Text) : Text := dir ++ (if dir.getLast? = some '/' then [] else ['/']) ++ entry

/-- The entries of a directory that are compared. -/
def entries (c : Comparison) (s : Store) (dir : Text) : Option Node → List (Text × Option Node)
  | some (.dir entries) =>
    let names := entries.map fun e => Text.ofBytes e.1
    (names.filter fun name => !c.excluded.any (·.isMatch name)).map fun name =>
      (name, (s.nodeAt true (within dir name).bytes).toOption)
  | _ => []

/-- Compares what stands at two paths. The number bounds how deep directories are gone into. -/
def compare (c : Comparison) (s : Store) : Nat → Bool → Text → Text → Option Node → Option Node → Act Nat
  | 0, _, _, _, _, _ => return 0
  | n + 1, top, x, y, node, node' => do
    match node, node' with
    | some (.file a _), some (.file b _) => showFiles c (!top) x y a.bytes b.bytes
    | some (.file a _), none => showFiles c (!top) x y a.bytes []
    | none, some (.file b _) => showFiles c (!top) x y [] b.bytes
    | some (.dir _), some (.dir _) | some (.dir _), none | none, some (.dir _) =>
      if !top && !c.deep then
        printLine ("Common subdirectories: ".toList ++ x ++ " and ".toList ++ y)
        return 0
      else
        let mine := c.entries s x node
        let others := c.entries s y node'
        let fresh := others.filter fun e => (mine.lookup e.1).isNone
        let names := ((mine ++ fresh).map (·.1)).mergeSort Text.notAfter
        let results ← names.mapM fun name => do
          let find (side : List (Text × Option Node)) : Option Node := (side.lookup name).join
          let only (dir : Text) : Act Nat := do
            printLine ("Only in ".toList ++ dir ++ ": ".toList ++ name)
            return 1
          let isMine := (mine.lookup name).isSome
          let isOther := (others.lookup name).isSome
          if !c.fills && !isOther then only x
          else if !c.fills && !isMine then only y
          else compare c s n false (within x name) (within y name) (find mine) (find others)
        return results.foldl max 0
    | some m, some k =>
      printLine ("File ".toList ++ c.label 0 x ++ " is a ".toList ++ kind m ++ " while file ".toList ++ c.label 1 y
        ++ " is a ".toList ++ kind k)
      return 1
    | _, _ => return 0

/-- A line by which it is compared where blanks count for little. -/
def keyOf (a : Arguments) (line : Text) : Text :=
  let ended := line.getLast? = some '\n'
  let body := if ended then line.dropLast else line
  let body := if a.has "strip-trailing-cr" && body.getLast? = some '\r' then body.dropLast else body
  let folded := if a.has "i" then body.map Char.toLower else body
  if a.has "w" then folded.filter (!Text.isSpace ·)
  else if a.has "b" then
    let rec single : Text → Text
      | [] => []
      | c :: rest => if Text.isSpace c then (if rest.head?.all Text.isSpace then single rest else ' ' :: single rest)
          else c :: single rest
    single folded
  else if a.has "Z" then Text.dropEndWhile Text.isSpace folded
  else if ended then folded ++ ['\n'] else folded

/-- How files are compared, as options say. -/
def ofArguments (a : Arguments) (options : List Text) : Comparison :=
  let given (key word : String) : Option Nat :=
    let numbers := (a.all key).filterMap Text.toNat? ++ (a.all word).map fun (t : Text) => (Text.toNat? t).getD 3
    (numbers ++ if a.has key.toLower then [3] else []).max?
  let expressions := (a.all "I").filterMap (Regex.read? .soughtBasic)
  let body (line : Text) : Text := if line.getLast? = some '\n' then line.dropLast else line
  { form :=
      if a.has "q" then .brief
      else
        match given "U" "unified", given "C" "context" with
        | some n, _ => .unified n
        | none, some n => .context n
        | none, none => .plain
    key := keyOf a
    isIdle := fun line => (a.has "B" && (body line).isEmpty)
      || expressions.any fun r => (r.find? false (body line)).isSome
    asText := a.has "a"
    tellsSame := a.has "s"
    deep := a.has "r"
    fills := a.has "N"
    excluded := (a.all "x").map fun (t : Text) => Pattern.read .usual (t.map (⟨·, false⟩))
    labels := a.all "L"
    options }

end Comparison

/-- What an operand stands for. -/
def nodeOf (path : Text) : Act (Option Node) := do
  let ofBytes (read : Except IoFault Bytes) : Option Node :=
    read.toOption.map fun bytes => .file (.plain bytes) false
  if path = ['-'] then return ofBytes (← readAll 0)
  else if (descriptorOf? path).isSome then return ofBytes (← readFile path)
  else return ((← store).nodeAt true path.bytes).toOption

/-- Says how files differ. -/
def diff : Command := fun name args =>
  Command.withFlags [.plain "q" ["brief"], .plain "s" ["report-identical-files"], .plain "c" [], .plain "u" [],
    .valued "U" [], .valued "C" [], ⟨"unified", ["unified"], .attached⟩, ⟨"context", ["context"], .attached⟩,
    .valued "L" ["label"], .plain "r" ["recursive"], .plain "N" ["new-file"], .plain "a" ["text"],
    .plain "i" ["ignore-case"], .plain "b" ["ignore-space-change"], .plain "w" ["ignore-all-space"],
    .plain "B" ["ignore-blank-lines"], .plain "Z" ["ignore-trailing-space"], .plain "E" ["ignore-tab-expansion"],
    .valued "I" ["ignore-matching-lines"], .valued "x" ["exclude"], .plain "d" ["minimal"], .plain "p" [],
    .plain "t" ["expand-tabs"], .plain "T" ["initial-tab"], .plain "normal" ["normal"],
    .plain "strip-trailing-cr" ["strip-trailing-cr"], .plain "no-dereference" ["no-dereference"],
    ⟨"color", ["color"], .attached⟩] 2
    (fun name a => do
      let forms := [["u", "U", "unified"], ["c", "C", "context"]].filter fun keys => keys.any a.has
      let number? (t : Text) : Option Nat := if t.isEmpty then some 3 else Text.toNat? t
      let counts := ["U", "unified", "C", "context"].flatMap a.all
      match a.operands, counts.find? (number? · |>.isNone) with
      | _, some bad => misused name 2 ("invalid context length ".toList ++ quote bad)
      | [x, y], none =>
        if forms.length > 1 then misused name 2 "conflicting output style options".toList
        else if (a.all "L").length > 2 then failAs name 2 "too many file label options".toList
        else
        let options := a.operands.foldr (fun (o : Text) left => (left.reverse.erase o).reverse) args
        let c := Comparison.ofArguments a options
        let node ← nodeOf x
        let node' ← nodeOf y
        let s ← store
        /- a file is compared with the one of its name in a directory -/
        let beside (dir file : Text) : Text := Comparison.within dir (((Text.splitAt '/' file).getLast?).getD [])
        let found (path : Text) : Option Node := (s.nodeAt true path.bytes).toOption
        let (x, y, node, node', guessed) := match node, node' with
          | some (.dir _), some (.file _ _) => (beside x y, y, found (beside x y), node', true)
          | some (.file _ _), some (.dir _) => (x, beside y x, node, found (beside y x), true)
          | _, _ => (x, y, node, node', false)
        if c.fills && !guessed && (node.isSome || node'.isSome) then
          c.compare s Segments.deepest true x y node node'
        else
          let missing := (if node.isNone then [x] else []) ++ (if node'.isNone then [y] else [])
          missing.forM fun path => do
            let _ ← refused name 2 path .notFound
          if missing.isEmpty then c.compare s Segments.deepest true x y node node' else return 2
      | [], none => misused name 2 ("missing operand after ".toList ++ quoteArgument name)
      | [x], none => misused name 2 ("missing operand after ".toList ++ quoteArgument x)
      | _ :: _ :: z :: _, none => misused name 2 ("extra operand ".toList ++ quoteArgument z)) name args

end StubRelease.Shell.Utility
