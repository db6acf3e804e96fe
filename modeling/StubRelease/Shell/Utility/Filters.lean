/-
# StubRelease.Shell.Utility.Filters -- commands that work on lines

Commands that read files or what is given to them and print some of it, rearranged or counted. An operand
`-` stands for what is given to the command.
-/
import StubRelease.Shell.Utility.Printing

namespace StubRelease.Shell.Utility

open Act

/-- What an operand stands for. -/
def input (path : Text) : Act (Except IoFault Text) := do
  let read ← if path = ['-'] then readAll 0 else readFile path
  return read.map Text.ofBytes

/-- The operands, or what is given to the command if there are none. -/
def orGiven (operands : List Text) : List Text := if operands.isEmpty then [['-']] else operands

/-- The contents of all operands that can be read; `complaint` says what is said of the others. -/
def inputs (name : Text) (status : Nat) (complaint : Text → Text) (operands : List Text) :
    Act (List (Text × Text) × Nat) := do
  let read ← operands.mapM fun path => do
    match ← input path with
    | .ok t => return (some (path, t), 0)
    | .error fault => return (none, ← refused name status (complaint path) fault)
  return (read.filterMap (·.1), (read.map (·.2)).foldl max 0)

/-- The contents of all operands, or the status if one of them cannot be read. -/
def allInputs (name : Text) (status : Nat) (complaint : Text → Text) :
    List Text → Act (Except Nat (List (Text × Text)))
  | [] => return .ok []
  | path :: rest => do
    match ← input path with
    | .error fault => return .error (← refused name status (complaint path) fault)
    | .ok t => return (← allInputs name status complaint rest).map ((path, t) :: ·)

/-- The contents of all operands one after the other. -/
def allInput (name : Text) (status : Nat) (operands : List Text) : Act (Text × Nat) := do
  let (read, status) ← inputs name status named operands
  return (read.flatMap (·.2), status)

/-! ## Whole files -/

/-- Numbers lines, counting on from a number; a blank line is passed over if asked to. -/
def numbered (skipBlank : Bool) : Nat → List Text → List Text
  | _, [] => []
  | n, line :: rest =>
    if skipBlank && line.isEmpty then line :: numbered skipBlank n rest
    else
      let shown := Text.ofNat n
      (List.replicate (6 - shown.length) ' ' ++ shown ++ '\t' :: line) :: numbered skipBlank (n + 1) rest

/-- Keeps one of several blank lines that follow each other. -/
def squeezed : List Text → List Text
  | [] :: [] :: rest => squeezed ([] :: rest)
  | line :: rest => line :: squeezed rest
  | [] => []

/-- Shows control characters and bytes past ASCII. -/
def visible (c : Char) : Text :=
  let plain (c : Char) : Text :=
    if c < ' ' && c ≠ '\t' && c ≠ '\n' then ['^', Char.ofNat (c.toNat + 64)]
    else if c = '\x7f' then ['^', '?']
    else [c]
  if c.toNat < 128 then plain c
  else 'M' :: '-' :: (let low := Char.ofNat (c.toNat - 128)
    if low = '\t' then ['^', 'I'] else if low = '\n' then ['^', 'J'] else plain low)

/-- Whether showing a file would go on for ever: the output is written to it, after a part that is still to
be read. -/
def feedsItself (path : Text) : Act Bool := do
  let p ← get
  match p.stream? 1 with
  | some (.file place offset atEnd) =>
    let written := if atEnd then fileSize p.store place else offset
    match if path = ['-'] then some 0 else descriptorOf? path with
    | some d =>
      match p.stream? d with
      | some (.file source start _) => return decide (source = place ∧ start < written)
      | _ => return false
    | none =>
      match p.store.placeOf true path.bytes with
      | .ok source => return decide (source = place ∧ 0 < written)
      | .error _ => return false
  | _ => return false
where
  fileSize (s : Store) (place : List Name) : Nat :=
    match s.top.get? place with
    | some (.file content _) => content.bytes.length
    | _ => 0

/-- What `cat` reads of an operand; what it refuses it has complained of. -/
def shownInput (name path : Text) : Act (Option Text) := do
  if ← feedsItself path then
    complain (name ++ ": ".toList ++ named path ++ ": input file is output file".toList)
    return none
  else
    match ← input path with
    | .ok t => return some t
    | .error fault =>
      let _ ← refusedFile name 1 path fault
      return none

/-- Shows each operand as what it adds to what is shown of those before it, and complains of those that
cannot be read. -/
def showEach (name : Text) (shown : Text → Text) : List Text → Text → Nat → Act Nat
  | [], _, status => return status
  | path :: rest, before, status => do
    match ← shownInput name path with
    | some t =>
      print ((shown (before ++ t)).drop (shown before).length)
      showEach name shown rest (before ++ t) status
    | none => showEach name shown rest before 1

def cat : Command :=
  .withFlags (Flag.letters "uetA" ++ [.plain "n" ["number"], .plain "b" ["number-nonblank"],
    .plain "s" ["squeeze-blank"], .plain "E" ["show-ends"], .plain "T" ["show-tabs"],
    .plain "v" ["show-nonprinting"]]) 1 fun name a => do
    let changes := !a.options.isEmpty
    if !changes then
      forEach (orGiven a.operands) fun path => do
        match ← shownInput name path with
        | some t =>
          print t
          return 0
        | none => return 1
    else
      let marked := a.has "E" || a.has "A" || a.has "e"
      let shown (t : Text) : Text :=
        let ends := t.getLast? = some '\n' || t.isEmpty
        let ls := Text.lines t
        let ls := if a.has "s" then squeezed ls else ls
        let ls := if a.has "v" || a.has "A" || a.has "e" || a.has "t" then ls.map (·.flatMap visible) else ls
        let ls := if a.has "T" || a.has "A" || a.has "t" then
            ls.map (·.flatMap fun c => if c = '\t' then ['^', 'I'] else [c])
          else ls
        let final := ls.length - 1
        let ls := if marked then ls.zipIdx.map fun (l, n) => if n = final && !ends then l else l ++ ['$'] else ls
        let ls := if a.has "b" then numbered true 1 ls else if a.has "n" then numbered false 1 ls else ls
        let text := Text.unlines ls
        if ends then text else text.dropLast
      showEach name shown (orGiven a.operands) [] 0

def tac : Command := .withFlags (Flag.letters "br") 1 fun name a => do
  let (read, status) ← inputs name 1
    (fun path => "failed to open ".toList ++ quote path ++ " for reading".toList) (orGiven a.operands)
  read.forM fun (_, t) =>
    let pieces := Text.splitAt '\n' t
    let whole := pieces.dropLast.map (· ++ ['\n'])
    let last := (pieces.getLast?).getD []
    print ((if last.isEmpty then whole else whole ++ [last]).reverse.flatten)
  return status

def rev : Command := .withFlags [] 1 fun name a => do
  let (read, status) ← inputs name 1 (fun path => "cannot open ".toList ++ named path) (orGiven a.operands)
  let t := read.flatMap (·.2)
  let text := Text.unlines ((Text.lines t).map List.reverse)
  print (if t.getLast? = some '\n' || t.isEmpty then text else text.dropLast)
  return status

def tee : Command :=
  .withFlags [.plain "a" ["append"], .plain "i" ["ignore-interrupts"], .plain "p" []] 1 fun name a => do
    let saved := (← get).descriptors
    let opened ← a.operands.mapM fun path => do
      match ← openWrite path (a.has "a") with
      | .ok stream => return (some stream, 0)
      | .error fault => return (none, ← refusedFile name 1 path fault)
    let bs := ((← readAll 0).toOption).getD []
    let _ ← write 1 bs
    (opened.filterMap (·.1)).forM fun stream => do
      attach 1 stream
      let _ ← write 1 bs
    modify fun p => { p with descriptors := saved }
    return (opened.map (·.2)).foldl max 0

/-! ## Beginnings and ends -/

/-- Lines with their line ends. -/
def keptLines (t : Text) : List Text :=
  let pieces := Text.splitAt '\n' t
  let last := (pieces.getLast?).getD []
  pieces.dropLast.map (· ++ ['\n']) ++ (if last.isEmpty then [] else [last])

/-- A number with a sign in front and perhaps a unit behind. -/
def signedCount? (t : Text) : Option (Option Char × Nat) :=
  let sign := t.head?.filter fun c => c = '+' || c = '-'
  let digits := if sign.isSome then t.drop 1 else t
  let body := digits.takeWhile Char.isDigit
  let unit := match String.ofList (digits.drop body.length) with
    | "" => some 1
    | "b" => some 512
    | "k" | "K" | "KiB" => some 1024
    | "kB" | "KB" => some 1000
    | "M" | "MiB" => some (1024 * 1024)
    | _ => none
  if body.isEmpty then none else unit.map fun u => (sign, Text.number body * u)

/-- An old way to write a count: a dash and digits. -/
def oldCount (args : List Text) : List Text :=
  match args with
  | ('-' :: c :: digits) :: rest =>
    if (c :: digits).all Char.isDigit then "-n".toList :: (c :: digits) :: rest else args
  | _ => args

/-- The headings of several files. -/
def headings (a : Arguments) (name : Text) (shown : Text → Act Nat) : Act Nat := do
  let paths := orGiven a.operands
  let headed := (paths.length > 1 && !a.has "q") || a.has "v"
  let rec each : Bool → List Text → Act Nat
    | _, [] => return 0
    | first, path :: rest => do
      let heading : Text :=
        (if first then [] else ['\n']) ++ "==> ".toList
          ++ (if path = ['-'] then "standard input".toList else path) ++ " <==\n".toList
      let known ← if path = ['-'] then pure none
        else match (← store).nodeAt true path.bytes with
          | .ok _ => pure none
          | .error fault => pure (if (descriptorOf? path).isSome then none else some fault)
      match known with
      | some fault =>
        let status ← refused name 1 ("cannot open ".toList ++ quote path ++ " for reading".toList) fault
        let _ ← each first rest
        return status
      | none =>
        if headed then print heading
        let status ← shown path
        let others ← each false rest
        return if status ≠ 0 then status else others
  each true paths

def countFlags : List Flag :=
  [.valued "n" ["lines"], .valued "c" ["bytes"], .plain "q" ["quiet", "silent"], .plain "v" ["verbose"],
    .plain "z" ["zero-terminated"]]

def head : Command := fun name args =>
  Command.withFlags countFlags 1 (fun name a => do
    let inBytes := a.lastOf? ["n", "c"] = some "c"
    let written := ((if inBytes then a.last? "c" else a.last? "n").getD ['1', '0'])
    match signedCount? written with
    | none =>
      let unit := if inBytes then "bytes: " else "lines: "
      failAs name 1 ("invalid number of ".toList ++ unit.toList ++ quote written)
    | some (sign, n) =>
      headings a name fun path => do
        match ← input path with
        | .error fault =>
          refused name 1 ("error reading ".toList ++ quote path) fault
        | .ok t =>
          let kept := if inBytes then
              t.take (if sign = some '-' then t.length - n else n)
            else
              let ls := keptLines t
              (ls.take (if sign = some '-' then ls.length - n else n)).flatten
          print kept
          if path = ['-'] && (← isSeekable 0) then unread 0 (Text.bytes (t.drop kept.length))
          return 0) name (oldCount args)

def tail : Command := fun name args =>
  Command.withFlags (countFlags ++ [.plain "f" ["follow"], .plain "F" [], .valued "s" [], .valued "pid" ["pid"]])
    1 (fun name a => do
    let inBytes := a.lastOf? ["n", "c"] = some "c"
    let written := ((if inBytes then a.last? "c" else a.last? "n").getD ['1', '0'])
    match signedCount? written with
    | none =>
      let unit := if inBytes then "bytes: " else "lines: "
      failAs name 1 ("invalid number of ".toList ++ unit.toList ++ quote written)
    | some (sign, n) =>
      headings a name fun path => do
        match ← input path with
        | .error fault => refused name 1 ("error reading ".toList ++ quote path) fault
        | .ok t =>
          if inBytes then print (t.drop (if sign = some '+' then n - 1 else t.length - n))
          else
            let ls := keptLines t
            print (ls.drop (if sign = some '+' then n - 1 else ls.length - n)).flatten
          return 0) name (match args with
    | ('+' :: c :: digits) :: rest =>
      if (c :: digits).all Char.isDigit then "-n".toList :: ('+' :: c :: digits) :: rest else args
    | _ => oldCount args)

/-! ## Counting -/

/-- How many words a text has. -/
def wordCount (t : Text) : Nat :=
  (t.foldl (fun (count, inside) c =>
    if Text.isSpace c then (count, false) else (if inside then count else count + 1, true)) (0, false)).1

/-- The length of the longest line, tabs going to every eighth column. -/
def longestLine (t : Text) : Nat :=
  ((Text.lines t).map fun l =>
    l.foldl (fun n c => if c = '\t' then n / 8 * 8 + 8 else if c < ' ' then n else n + 1) 0).foldl max 0

def wc : Command :=
  .withFlags [.plain "l" ["lines"], .plain "w" ["words"], .plain "c" ["bytes"], .plain "m" ["chars"],
    .plain "L" ["max-line-length"], .valued "total" ["total"], .valued "from" ["files0-from"]] 1
    fun name a => do
    let s ← store
    let paths := orGiven a.operands
    let chosen := ["l", "w", "m", "c", "L"].filter a.has
    let chosen := if chosen.isEmpty then ["l", "w", "c"] else chosen
    let counts (t : Text) : List Nat := chosen.map fun key =>
      match key with
      | "l" => t.count '\n'
      | "w" => wordCount t
      | "L" => longestLine t
      | _ => t.length
    let regular ← isSeekable 0
    let sizes := paths.map fun (path : Text) =>
      if path = ['-'] then if regular then some 0 else none
      else match s.nodeAt true path.bytes with
        | .ok (.file content _) => some content.bytes.length
        | .ok _ => none
        | .error _ => some 0
    let total := (sizes.filterMap id).foldl (· + ·) 0
    let least := if sizes.all Option.isSome then 1 else 7
    let width := if paths.length = 1 && chosen.length = 1 then 1
      else max least (Text.ofNat total).length
    let row (values : List Nat) (label : Text) : Act Unit :=
      let cells := values.map fun n =>
        let shown := Text.ofNat n
        List.replicate (width - shown.length) ' ' ++ shown
      printLine (Text.unwords (cells ++ (if label.isEmpty then [] else [label])))
    let results ← paths.mapM fun path => do
      let label := if a.operands.isEmpty then [] else path
      match ← input path with
      | .ok t =>
        row (counts t) label
        return (counts t, 0)
      | .error fault =>
        let status ← refusedFile name 1 path fault
        if fault = .os .isDirectory then row (counts []) label
        return (counts [], status)
    if paths.length > 1 then
      row (results.foldl (fun sums r => List.zipWith (· + ·) sums r.1) (counts [])) "total".toList
    return (results.map (·.2)).foldl max 0

/-! ## Sorting -/

/-- How two texts are compared. -/
structure SortOrder where
  numeric : Bool
  versions : Bool
  fold : Bool
  ignoreBlanks : Bool
  dictionary : Bool
  reversed : Bool

/-- A part of a line to sort by: from a field and character to another one, counted from one. -/
structure SortKey where
  fromField : Nat
  fromChar : Nat
  toField : Option Nat
  toChar : Nat
  order : SortOrder
  /-- Whether it has an order of its own. -/
  own : Bool

namespace SortOrder

def ofLetters (letters : Text) : SortOrder where
  numeric := letters.any "ngh".toList.contains
  versions := letters.contains 'V'
  fold := letters.contains 'f'
  ignoreBlanks := letters.contains 'b'
  dictionary := letters.contains 'd'
  reversed := letters.contains 'r'

/-- The number a text begins with. -/
def leadingNumber (t : Text) : Int × Nat :=
  let t := t.dropWhile Text.isBlank
  let (negative, t) := match t with
    | '-' :: rest => (true, rest)
    | _ => (false, t)
  let whole := t.takeWhile Char.isDigit
  let places := match t.drop whole.length with
    | '.' :: rest => rest.takeWhile Char.isDigit
    | _ => []
  let n : Int := Text.number (whole ++ places)
  (if negative then -n else n, places.length)

/-- Compares runs of digits by their value and all else by characters. The number bounds the steps. -/
def compareVersions : Nat → Text → Text → Ordering
  | 0, _, _ => .eq
  | _, [], [] => .eq
  | _, [], _ :: _ => .lt
  | _, _ :: _, [] => .gt
  | n + 1, x :: xs, y :: ys =>
    if x.isDigit && y.isDigit then
      let a := (x :: xs).takeWhile Char.isDigit
      let b := (y :: ys).takeWhile Char.isDigit
      match compare (Text.number a) (Text.number b) with
      | .eq => compareVersions n ((x :: xs).drop a.length) ((y :: ys).drop b.length)
      | o => o
    else
      match compare x y with
      | .eq => compareVersions n xs ys
      | o => o

def compareText (x y : Text) : Ordering := if x < y then .lt else if y < x then .gt else .eq

/-- Compares two texts, the direction left aside. -/
def compare (o : SortOrder) (x y : Text) : Ordering :=
  if o.numeric then
    let (a, p) := leadingNumber x
    let (b, q) := leadingNumber y
    Ord.compare (a * Int.pow 10 q) (b * Int.pow 10 p)
  else if o.versions then compareVersions (x.length + y.length + 1) x y
  else
    let shape (t : Text) : Text :=
      let t := if o.ignoreBlanks then t.dropWhile Text.isBlank else t
      let t := if o.dictionary then t.filter fun c => Text.isBlank c || c.isAlphanum else t
      if o.fold then t.map Char.toUpper else t
    compareText (shape x) (shape y)

end SortOrder

/-- Where the fields of a line begin: after separators, or where blanks begin. -/
def fieldStarts (separator : Option Char) (t : Text) : List Nat :=
  match separator with
  | some c => 0 :: (t.zipIdx.filter (·.1 = c)).map (·.2 + 1)
  | none =>
    let places := (List.range t.length).filter fun n =>
      (t[n]?.any Text.isBlank) && n > 0 && !(t[n - 1]?.any Text.isBlank)
    0 :: places

namespace SortKey

/-- Reads a position: a field, a character, and letters of an order. -/
def position (t : Text) : Option (Nat × Option Nat × Text) :=
  let field := t.takeWhile Char.isDigit
  let rest := t.drop field.length
  let (char, rest) := match rest with
    | '.' :: more =>
      let digits := more.takeWhile Char.isDigit
      (some (Text.number digits), more.drop digits.length)
    | _ => (none, rest)
  if field.isEmpty || !rest.all "bdfgiMhnRrV".toList.contains then none
  else some (Text.number field, char, rest)

/-- Reads a key. -/
def read? (t : Text) : Option SortKey := do
  let first := t.takeWhile (· ≠ ',')
  let (field, char, letters) ← position first
  if field = 0 then none
  if t.contains ',' then
    let (toField, toChar, more) ← position (t.drop (first.length + 1))
    return ⟨field, char.getD 1, some toField, toChar.getD 0, .ofLetters (letters ++ more),
      !(letters ++ more).isEmpty⟩
  else return ⟨field, char.getD 1, none, 0, .ofLetters letters, !letters.isEmpty⟩

/-- The part of a line that a key names. -/
def part (k : SortKey) (separator : Option Char) (line : Text) : Text :=
  let starts := fieldStarts separator line
  let skipBlanks (n : Nat) : Nat :=
    if k.order.ignoreBlanks || false then
      n + ((line.drop n).takeWhile Text.isBlank).length
    else n
  let start := match starts[k.fromField - 1]? with
    | some n => min line.length (skipBlanks n + (k.fromChar - 1))
    | none => line.length
  let stop := match k.toField with
    | none => line.length
    | some f =>
      if k.toChar = 0 then
        match starts[f]? with
        | some n => if separator.isSome then n - 1 else n
        | none => line.length
      else
        match starts[f - 1]? with
        | some n => min line.length (skipBlanks n + k.toChar)
        | none => line.length
  (line.take stop).drop start

end SortKey

def sort : Command :=
  .withFlags (Flag.letters "bdfgiMhnRrVcCmsuz" ++ [.valued "k" ["key"], .valued "t" ["field-separator"],
    .valued "o" ["output"], .valued "S" ["buffer-size"], .valued "T" ["temporary-directory"],
    .valued "parallel" ["parallel"], .plain "r" ["reverse"], .plain "n" ["numeric-sort"], .plain "u" ["unique"],
    .plain "f" ["ignore-case"], .plain "V" ["version-sort"], .plain "s" ["stable"], .plain "c" ["check"]])
    2 fun name a => do
    let letters := ((a.options.map (·.1)).filter fun k => k.length = 1).flatMap (·.toList)
    let order := SortOrder.ofLetters letters
    match a.last? "t", (a.all "k").find? fun k => (SortKey.read? k).isNone with
    | some (c :: d :: more), _ =>
      if (c :: d :: more) = ['\\', '0'] then return 0
      else failAs name 2 ("multi-character tab ".toList ++ quote (c :: d :: more))
    | some [], _ => failAs name 2 "empty tab".toList
    | _, some bad =>
      failAs name 2 ("invalid number at field start: invalid count at start of ".toList ++ quoteArgument bad)
    | separator, none =>
      let separator := separator.bind List.head?
      let keys := (a.all "k").filterMap SortKey.read?
      let keys := keys.map fun k => if k.own then k else { k with order }
      let byKeys (x y : Text) : Ordering :=
        if keys.isEmpty then
          let o := order.compare x y
          if order.reversed then o.swap else o
        else keys.foldl (fun o k =>
          match o with
          | .eq =>
            let o := k.order.compare (k.part separator x) (k.part separator y)
            if k.order.reversed then o.swap else o
          | o => o) .eq
      let full (x y : Text) : Ordering :=
        match byKeys x y with
        | .eq =>
          if a.has "s" || a.has "u" then .eq
          else
            let o := SortOrder.compareText x y
            if order.reversed then o.swap else o
        | o => o
      match ← allInputs name 2 (fun path => "cannot read: ".toList ++ named path) (orGiven a.operands) with
      | .error status => return status
      | .ok read =>
        let ls := read.flatMap fun (_, t) => Text.lines t
        if a.has "c" || a.has "C" then
          let bad := (ls.zip (ls.drop 1)).zipIdx.find? fun ((x, y), _) =>
            full x y = .gt || (a.has "u" && full x y = .eq)
          match bad with
          | some ((_, y), n) =>
            if a.has "c" then
              complain (name ++ ": ".toList ++ (orGiven a.operands).headD [] ++ [':'] ++ Text.ofNat (n + 2)
                ++ ": disorder: ".toList ++ y)
            return 1
          | none => return 0
        else
          let sorted := ls.mergeSort fun x y => full x y ≠ .gt
          let sorted := if a.has "u" then
              sorted.foldr (fun x kept => match kept with
                | y :: rest => if byKeys x y = .eq then x :: rest else x :: y :: rest
                | [] => [x]) []
            else sorted
          match a.last? "o" with
          | none =>
            print (Text.unlines sorted)
            return 0
          | some path =>
            match ← writeFile path (Text.unlines sorted).bytes with
            | .ok () => return 0
            | .error fault => refused name 2 ("open failed: ".toList ++ named path) fault

/-- Lines that follow each other and are the same, with their number. -/
def runs (same : Text → Text → Bool) : List Text → List (Text × Nat)
  | [] => []
  | line :: rest =>
    match runs same rest with
    | (next, n) :: more => if same line next then (line, n + 1) :: more else (line, 1) :: (next, n) :: more
    | [] => [(line, 1)]

def uniq : Command :=
  .withFlags [.plain "c" ["count"], .plain "d" ["repeated"], .plain "u" ["unique"], .plain "i" ["ignore-case"],
    .valued "f" ["skip-fields"], .valued "s" ["skip-chars"], .valued "w" ["check-chars"], .plain "D" [],
    .plain "z" []] 1 fun name a => do
    let number (key : String) : Nat := ((a.last? key).bind Text.toNat?).getD 0
    let bad := [("f", "fields to skip"), ("s", "bytes to skip"), ("w", "bytes to compare")].find? fun (key, _) =>
      (a.last? key).any fun (t : Text) => (Text.toNat? t).isNone
    match bad, a.operands with
    | some (key, what), _ =>
      failAs name 1 ((a.last? key).getD [] ++ ": invalid number of ".toList ++ what.toList)
    | none, _ :: _ :: extra :: _ => misused name 1 ("extra operand ".toList ++ quoteArgument extra)
    | none, _ =>
      let rec skipFields : Nat → Text → Text
        | 0, t => t
        | n + 1, t => skipFields n ((t.dropWhile Text.isBlank).dropWhile (!Text.isBlank ·))
      let part (t : Text) : Text :=
        let t := (skipFields (number "f") t).drop (number "s")
        let t := if (a.last? "w").isSome then t.take (number "w") else t
        if a.has "i" then t.map Char.toLower else t
      match ← input (a.operands.headD ['-']) with
      | .error fault => refusedFile name 1 (a.operands.headD []) fault
      | .ok t =>
        let all := runs (fun x y => part x = part y) (Text.lines t)
        let kept := all.filter fun (_, n) =>
          (!a.has "d" || n > 1) && (!a.has "u" || n = 1)
        let shown := if a.has "D" then (all.filter (·.2 > 1)).flatMap fun (l, n) => List.replicate n l
          else kept.map fun (l, n) =>
            if a.has "c" then
              let count := Text.ofNat n
              List.replicate (7 - count.length) ' ' ++ count ++ ' ' :: l
            else l
        match a.operands with
        | [_, path] =>
          match ← writeFile path (Text.unlines shown).bytes with
          | .ok () => return 0
          | .error fault => refusedFile name 1 path fault
        | _ =>
          print (Text.unlines shown)
          return 0

/-! ## Parts of lines -/

/-- Ranges of positions, counted from one; a range may be open to the right. -/
def ranges? (t : Text) : Option (List (Nat × Option Nat)) :=
  (Text.splitAt ',' t).mapM fun (r : Text) =>
    let low := r.takeWhile Char.isDigit
    match r.drop low.length with
    | [] => if low.isEmpty || Text.number low = 0 then none else some (Text.number low, some (Text.number low))
    | '-' :: high =>
      if !high.all Char.isDigit || (low.isEmpty && high.isEmpty) then none
      else
        let from' := if low.isEmpty then 1 else Text.number low
        let last := if high.isEmpty then none else some (Text.number high)
        if from' = 0 || last.any (· < from') then none else some (from', last)
    | _ => none

def inRanges (ranges : List (Nat × Option Nat)) (n : Nat) : Bool :=
  ranges.any fun (low, high) => low ≤ n && high.all (n ≤ ·)

def cut : Command :=
  .withFlags [.valued "d" ["delimiter"], .valued "f" ["fields"], .valued "c" ["characters"],
    .valued "b" ["bytes"], .plain "s" ["only-delimited"], .plain "complement" ["complement"],
    .valued "output" ["output-delimiter"], .plain "n" [], .plain "z" ["zero-terminated"]] 1 fun name a => do
    let lists := ["f", "c", "b"].filterMap a.last?
    match lists with
    | [] => misused name 1 "you must specify a list of bytes, characters, or fields".toList
    | _ :: _ :: _ => misused name 1 "only one list may be specified".toList
    | [list] =>
      let byFields := a.has "f"
      let delimiter := (a.last? "d").getD ['\t']
      if delimiter.length > 1 then misused name 1 "the delimiter must be a single character".toList
      else if !byFields && (a.has "d") then
        misused name 1 "an input delimiter may be specified only when operating on fields".toList
      else
        match ranges? list with
        | none =>
          let what := if byFields then "invalid field value " else "invalid byte/character position "
          misused name 1 (what.toList ++ quote list)
        | some ranges =>
          let chosen (n : Nat) : Bool := inRanges ranges (n + 1) != a.has "complement"
          let c := delimiter.headD '\x00'
          let between := (a.last? "output").getD (if byFields then [c] else [])
          let line (l : Text) : Option Text :=
            if byFields then
              if !l.contains c then if a.has "s" then none else some l
              else
                let kept := ((Text.splitAt c l).zipIdx.filter fun (_, n) => chosen n).map (·.1)
                some (Text.join between kept)
            else some ((l.zipIdx.filter fun (_, n) => chosen n).map (·.1))
          let (t, status) ← allInput name 1 (orGiven a.operands)
          print (Text.unlines ((Text.lines t).filterMap line))
          return status

def paste : Command :=
  .withFlags [.valued "d" ["delimiters"], .plain "s" ["serial"], .plain "z" []] 1 fun name a => do
    let between := (Escape.replace .bash ((a.last? "d").getD ['\t'])).text
    let found ← allInputs name 1 named (orGiven a.operands)
    let (read, status) := match found with
      | .ok read => (read, 0)
      | .error status => ([], status)
    let columns := read.map fun (_, t) => Text.lines t
    let glue (cells : List Text) : Text :=
      (cells.zipIdx.map fun (cell, n) =>
        if n = 0 || between.isEmpty then cell
        else (between[(n - 1) % between.length]?).toList ++ cell).flatten
    if status = 0 then
      if a.has "s" then columns.forM fun ls => printLine (glue ls)
      else
        let height := (columns.map List.length).foldl max 0
        (List.range height).forM fun n => printLine (glue (columns.map fun ls => (ls[n]?).getD []))
    return status

def fold : Command :=
  .withFlags [.valued "w" ["width"], .plain "b" ["bytes"], .plain "s" ["spaces"]] 1 fun name a => do
    let width := ((a.last? "w").bind Text.toNat?).getD 80
    let (t, status) ← allInput name 1 (orGiven a.operands)
    if width = 0 then failAs name 1 "invalid number of columns: '0'".toList
    else
      let rec pieces : Nat → Text → List Text
        | 0, l => [l]
        | n + 1, l =>
          if l.length ≤ width then [l]
          else
            let start := l.take width
            let cut := if a.has "s" then
                let kept := Text.dropEndWhile (!Text.isBlank ·) start
                if kept.isEmpty then width else kept.length
              else width
            l.take cut :: pieces n (l.drop cut)
      let text := Text.unlines ((Text.lines t).flatMap fun l => pieces l.length l)
      print (if t.getLast? = some '\n' || t.isEmpty then text else text.dropLast)
      return status

def nl : Command :=
  .withFlags [.valued "b" ["body-numbering"], .valued "w" ["number-width"], .valued "s" ["number-separator"],
    .valued "n" ["number-format"], .valued "v" [], .valued "f" [], .valued "h" [], .valued "i" [], .plain "p" [],
    .valued "d" [], .valued "l" []] 1 fun name a => do
    let all := a.last? "b" = some ['a']
    let width := ((a.last? "w").bind Text.toNat?).getD 6
    let separator := (a.last? "s").getD ['\t']
    let (t, status) ← allInput name 1 (orGiven a.operands)
    let rec each : Nat → List Text → List Text
      | _, [] => []
      | n, l :: rest =>
        if l.isEmpty && !all then (List.replicate (width + separator.length) ' ') :: each n rest
        else
          let shown := Text.ofNat n
          (List.replicate (width - shown.length) ' ' ++ shown ++ separator ++ l) :: each (n + 1) rest
    print (Text.unlines (each 1 (Text.lines t)))
    return status

/-! ## Characters -/

/-- The characters of a set of `tr`; the number bounds the steps. -/
def setChars : Nat → Text → Text
  | 0, _ => []
  | _, [] => []
  | n + 1, '[' :: ':' :: rest =>
    let kind := rest.takeWhile Char.isAlpha
    if ":]".toList.isPrefixOf (rest.drop kind.length) then
      ((List.range 256).map Char.ofNat).filter (isOfKind (String.ofList kind))
        ++ setChars n (rest.drop (kind.length + 2))
    else '[' :: setChars n (':' :: rest)
  | n + 1, c :: rest =>
    let (first, rest) := one (c :: rest)
    match rest with
    | '-' :: d :: more =>
      let (last, after) := one (d :: more)
      if first ≤ last then
        ((List.range (last.toNat - first.toNat + 1)).map fun k => Char.ofNat (first.toNat + k)) ++ setChars n after
      else first :: setChars n rest
    | _ => first :: setChars n rest
where
  /-- One character, which may be written as an escape. -/
  one (t : Text) : Char × Text :=
    match t with
    | '\\' :: c :: rest =>
      if '0' ≤ c && c ≤ '7' then
        let (e, used) := Escape.octal 3 (c :: rest)
        (e, (c :: rest).drop used)
      else ((match c with
        | 'e' => none
        | _ => Escape.letter? c).getD c, rest)
    | c :: rest => (c, rest)
    | [] => ('\\', [])

def tr : Command := fun name args => do
  let flags : List Flag := [.plain "c" ["complement"], .plain "C" [], .plain "d" ["delete"],
    .plain "s" ["squeeze-repeats"], .plain "t" ["truncate-set1"]]
  match Arguments.read (flags ++ [.plain "help" ["help"]]) false args with
  | .error fault => misused name 1 fault.describe
  | .ok a =>
    let chars (t : Text) : Text := setChars (t.length + 1) t
    let deletes := a.has "d"
    let squeezes := a.has "s"
    match a.operands with
    | [] => lacksOperand name 1
    | [set] =>
      if !deletes && !squeezes then
        complain (name ++ ": missing operand after ".toList ++ quoteArgument set)
        complain "Two strings must be given when translating.".toList
        tryHelp name
        return 1
      else if deletes && squeezes then
        complain (name ++ ": missing operand after ".toList ++ quoteArgument set)
        complain "Two strings must be given when both deleting and squeezing repeats.".toList
        tryHelp name
        return 1
      else go a (chars set) []
    | set :: other :: more =>
      match more with
      | extra :: _ => misused name 1 ("extra operand ".toList ++ quoteArgument extra)
      | [] =>
        if deletes && !squeezes then
          complain (name ++ ": extra operand ".toList ++ quoteArgument other)
          complain "Only one string may be given when deleting without squeezing repeats.".toList
          tryHelp name
          return 1
        else go a (chars set) (chars other)
where
  /-- Changes, deletes and squeezes characters. -/
  go (a : Arguments) (set other : Text) : Act Nat := do
    let everything := (List.range 256).map Char.ofNat
    let set := if a.has "c" || a.has "C" then everything.filter (!set.contains ·) else set
    let t := Text.ofBytes (((← readAll 0).toOption).getD [])
    let translates := !a.has "d" && !other.isEmpty
    let set := if a.has "t" then set.take other.length else set
    let last := (other.getLast?).getD '\x00'
    let padded := other ++ List.replicate (set.length - other.length) last
    let pairs := (set.zip padded).reverse
    let changed := if a.has "d" then t.filter (!set.contains ·)
      else if translates then t.map fun c => (pairs.lookup c).getD c
      else t
    let squeezed := if !a.has "s" then changed
      else
        let repeats := if other.isEmpty then set else other
        (changed.foldl (fun kept c => match kept with
          | d :: _ => if c = d && repeats.contains c then kept else c :: kept
          | [] => [c]) []).reverse
    print squeezed
    return 0

end StubRelease.Shell.Utility
