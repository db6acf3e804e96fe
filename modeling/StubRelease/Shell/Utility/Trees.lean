/-
# StubRelease.Shell.Utility.Trees -- commands on files and directories

Commands that make, copy, move, remove and list files. A refused operation is complained of with the
command's name, the file and the refusal, and the command goes on with its next operand.
-/
import StubRelease.Shell.Utility.Printing

namespace StubRelease.Shell.Utility

open Act

/-- A path below a directory. -/
def below (dir name : Text) : Text :=
  if dir.getLast? = some '/' then dir ++ name else dir ++ '/' :: name

/-- What stands at a path, a link itself. -/
def entryAt? (s : Store) (path : Text) : Option Node := (s.nodeAt false path.bytes).toOption

/-- Whether two paths lead to the same place. -/
def samePlace (s : Store) (x y : Text) : Bool :=
  match s.placeOf true x.bytes, s.placeOf true y.bytes with
  | .ok p, .ok q => p == q
  | _, _ => false

/-- The mode bits that let a program run, in octal or symbolic clauses: what they are afterwards, from what
they were. -/
def executableAfter? (mode : Text) (was isDir : Bool) : Option Bool :=
  if !mode.isEmpty && mode.all fun c => '0' ≤ c && c ≤ '7' then
    some ((Text.takeDigits 8 0 mode).1 &&& 0o111 ≠ 0)
  else
    (Text.splitAt ',' mode).foldlM (fun now clause =>
      let who := clause.takeWhile "ugoa".toList.contains
      let everyone := who.isEmpty || who.contains 'a' || (who.contains 'u' && who.contains 'g' && who.contains 'o')
      match clause.drop who.length with
      | operator :: letters =>
        let sets := letters.contains 'x' || (letters.contains 'X' && (now || isDir))
        if !"+-=".toList.contains operator || !letters.all "rwxXstugo".toList.contains then none
        else some (match operator with
          | '+' => now || sets
          | '-' => now && !(sets && everyone)
          | _ => if sets then true else now && !everyone)
      | [] => none) was

/-- Sets whether the file at a path may be run. -/
def setExecutable (path : Text) (value : Bool) : Act Unit := do
  let _ ← files (do
    let place ← Files.ask (·.placeOf true path.bytes)
    match (← get).top.get? place with
    | some (.file content _) => modify (·.replace place (.file content value))
    | _ => pure ())

/-! ## Making and removing -/

/-- The directories on the way of a path that are missing. -/
def missingAbove (s : Store) (path : Text) : List Text :=
  let cuts := (List.range (path.length + 1)).filter fun n => n > 0 && (path[n]? = some '/' || n = path.length)
  (cuts.map fun n => path.take n).filter fun p => p.getLast? ≠ some '/' && !s.hasEntry p.bytes

def mkdir : Command :=
  .withFlags [.plain "p" ["parents"], .valued "m" ["mode"], .plain "v" ["verbose"], .plain "Z" []] 1
    fun name a => do
    if a.operands.isEmpty then lacksOperand name 1
    else
      forEach a.operands fun path => do
        let s ← store
        let missing := if a.has "p" then missingAbove s path else [path]
        let op := if a.has "p" then Files.makeDirs path.bytes else Files.makeDir path.bytes
        match ← files (if path.isEmpty then Files.refuse .notFound else op) with
        | .ok () =>
          if a.has "v" then
            missing.forM fun p => printLine (name ++ ": created directory ".toList ++ quote p)
          return 0
        | .error fault => refused name 1 ("cannot create directory ".toList ++ quote path) fault

def rmdir : Command :=
  .withFlags [.plain "p" ["parents"], .plain "v" ["verbose"], .plain "ignore" ["ignore-fail-on-non-empty"]] 1
    fun name a => do
    if a.operands.isEmpty then lacksOperand name 1
    else
      forEach a.operands fun path => do
        match ← files (Files.removeDir path.bytes) with
        | .ok () =>
          if a.has "p" then
            let parents := (List.range path.length).reverse.filter fun n => n > 0 && path[n]? = some '/'
            forEach (parents.map fun n => path.take n) fun parent => do
              match ← files (Files.removeDir parent.bytes) with
              | .ok () => return 0
              | .error fault => refused name 1 ("failed to remove directory ".toList ++ quote parent) fault
          else return 0
        | .error fault =>
          if a.has "ignore" && fault = .os .directoryNotEmpty then return 0
          else refused name 1 ("failed to remove ".toList ++ quote path) fault

/-- Whether a path ends in a step that names no entry. -/
def endsFixed (path : Text) : Bool :=
  let last := lastPart path
  last = ['.'] || last = ['.', '.']

def rm : Command :=
  .withFlags [.plain "r" ["recursive"], .plain "R" [], .plain "f" ["force"], .plain "v" ["verbose"],
    .plain "d" ["dir"], .plain "i" [], .plain "I" [], .plain "onefs" ["one-file-system"],
    .plain "root" ["preserve-root", "no-preserve-root"], .valued "interactive" ["interactive"]] 1
    fun name a => do
    let whole := a.has "r" || a.has "R"
    let force := a.has "f"
    if a.operands.isEmpty then
      if force then return 0 else lacksOperand name 1
    else
      forEach a.operands fun path => do
        let s ← store
        let complainOf (fault : IoFault) : Act Nat :=
          if force && (fault = .notFound || fault = .os .notDirectory) then return 0
          else refused name 1 ("cannot remove ".toList ++ quote path) fault
        match s.nodeAt false path.bytes with
        | .error fault => complainOf fault
        | .ok node =>
          let isDir := node.isDir
          if isDir && !whole && !a.has "d" then complainOf (.os .isDirectory)
          else if isDir && endsFixed path then
            failAs name 1 ("refusing to remove '.' or '..' directory: skipping ".toList ++ quote path)
          else
            let op := if whole then TreeAction.removeAny path.bytes
              else if isDir then Files.removeDir path.bytes
              else Files.removeFile path.bytes
            match ← files op with
            | .ok () =>
              if a.has "v" then
                printLine ((if isDir then "removed directory ".toList else "removed ".toList) ++ quote path)
              return 0
            | .error fault => complainOf fault

def touch : Command :=
  .withFlags [.plain "a" [], .plain "c" ["no-create"], .valued "d" ["date"], .plain "f" [],
    .plain "h" ["no-dereference"], .plain "m" [], .valued "r" ["reference"], .valued "t" [],
    .valued "time" ["time"]] 1
    fun name a => do
    let stamp := a.last? "t"
    let isStamp (t : Text) : Bool :=
      let digits := t.filter Char.isDigit
      t.all (fun c => c.isDigit || c = '.') && [8, 10, 12, 14].contains digits.length
    match stamp.filter (!isStamp ·), (a.last? "r").filter fun _ => true with
    | some bad, _ => failAs name 1 ("invalid date format ".toList ++ quoteArgument bad)
    | none, reference =>
      let missing ← match reference with
        | some path => pure (if (← store).present path.bytes then none else some path)
        | none => pure none
      match missing with
      | some path => refused name 1 ("failed to get attributes of ".toList ++ quote path) .notFound
      | none =>
        if a.operands.isEmpty then misused name 1 "missing file operand".toList
        else
          forEach a.operands fun path => do
            let s ← store
            if s.present path.bytes then return 0
            else if a.has "c" then return 0
            else if path.getLast? = some '/' then
              match s.nodeAt true path.bytes with
              | .error fault => refused name 1 ("cannot touch ".toList ++ quote path) fault
              | .ok _ => return 0
            else
              match ← files (Files.writeFile path.bytes default) with
              | .ok () => return 0
              | .error fault => refused name 1 ("cannot touch ".toList ++ quote path) fault

def chmod : Command := fun name args => do
  let flags : List Flag := [.plain "R" ["recursive"], .plain "v" ["verbose"], .plain "c" ["changes"],
    .plain "f" ["silent", "quiet"], .valued "reference" ["reference"]]
  let isMode (t : Text) : Bool := match t with
    | '-' :: c :: _ => "rwxXst".toList.contains c
    | _ => false
  let mode? := args.find? isMode
  let args := match mode? with
    | some mode => args.filter (· ≠ mode)
    | none => args
  match Arguments.read flags true args with
  | .error fault => misused name 1 fault.describe
  | .ok a =>
    match mode?, a.operands with
    | none, [] => lacksOperand name 1
    | some _, [] => lacksOperand name 1
    | none, [mode] => misused name 1 ("missing operand after ".toList ++ quoteArgument mode)
    | given, first :: rest =>
      let (mode, paths) := match given with
        | some mode => (mode, first :: rest)
        | none => (first, rest)
      if (executableAfter? mode false false).isNone then
        misused name 1 ("invalid mode: ".toList ++ quoteArgument mode)
      else
        forEach paths fun path => do
          match (← store).nodeAt true path.bytes with
          | .error fault => refused name 1 ("cannot access ".toList ++ quote path) fault
          | .ok (.file _ was) =>
            setExecutable path ((executableAfter? mode was false).getD was)
            return 0
          | .ok (.dir entries) =>
            if a.has "R" then setAll mode path entries
            return 0
          | .ok (.link _) => return 0
where
  /-- Sets the mode of all files below a directory. -/
  setAll (mode dir : Text) : List (Name × Node) → Act Unit
    | [] => pure ()
    | (entry, .file _ was) :: rest => do
      setExecutable (below dir (Text.ofBytes entry)) ((executableAfter? mode was false).getD was)
      setAll mode dir rest
    | (entry, .dir entries) :: rest => do
      setAll mode (below dir (Text.ofBytes entry)) entries
      setAll mode dir rest
    | (_, .link _) :: rest => setAll mode dir rest

/-! ## Copying and moving -/

/-- Where the operands of a copy or a move go: each source with its destination, or a complaint. -/
def routed (a : Arguments) : Act (Except (Text × Bool) (List (Text × Text))) := do
  let s ← store
  let into (dir : Text) (sources : List Text) : List (Text × Text) :=
    sources.map fun x => (x, below dir (lastPart x))
  match a.last? "t", a.operands.reverse with
  | some _, [] | none, [] => return .error ("missing file operand".toList, true)
  | some dir, sources =>
    if s.isDir dir.bytes then return .ok (into dir sources.reverse)
    else if s.present dir.bytes then
      return .error ("target directory ".toList ++ quote dir ++ ": Not a directory".toList, false)
    else return .error ("target directory ".toList ++ quote dir ++ ": No such file or directory".toList, false)
  | none, [only] => return .error ("missing destination file operand after ".toList ++ quote only, true)
  | none, [dest, source] =>
    if s.isDir dest.bytes && !a.has "T" then return .ok (into dest [source])
    else return .ok [(source, dest)]
  | none, dest :: sources =>
    if a.has "T" then return .error ("extra operand ".toList ++ quoteArgument dest, true)
    else if s.isDir dest.bytes then return .ok (into dest sources.reverse)
    else if s.present dest.bytes then
      return .error ("target ".toList ++ quote dest ++ ": Not a directory".toList, false)
    else return .error ("target ".toList ++ quote dest ++ ": No such file or directory".toList, false)

/-- Applies a command to every source and destination. -/
def forRouted (name : Text) (a : Arguments) (command : Text → Text → Act Nat) : Act Nat := do
  match ← routed a with
  | .error (text, true) => misused name 1 text
  | .error (text, false) => failAs name 1 text
  | .ok pairs =>
    let results ← pairs.mapM fun (source, dest) => command source dest
    return (results.find? (· ≠ 0)).getD 0

/-- Writes a copy of a file. -/
def copyContent (name source dest : Text) (content : Content) (executable : Bool) : Act Nat := do
  let s ← store
  if Question.isDevice s dest then return 0
  else
    match s.nodeAt true dest.bytes, entryAt? s dest with
    | .ok (.dir _), _ =>
      failAs name 1 ("cannot overwrite directory ".toList ++ quote dest ++ " with non-directory".toList)
    | .error _, some (.link _) =>
      failAs name 1 ("not writing through dangling symlink ".toList ++ quote dest)
    | .ok _, _ =>
      if samePlace s source dest then
        failAs name 1 (quote source ++ " and ".toList ++ quote dest ++ " are the same file".toList)
      else
        match ← files (Files.writeFile dest.bytes content) with
        | .ok () => return 0
        | .error fault => refused name 1 ("cannot create regular file ".toList ++ quote dest) fault
    | .error _, _ =>
      let fault? ← files (Files.writeFile dest.bytes content)
      match fault? with
      | .ok () =>
        if executable then setExecutable dest true
        return 0
      | .error fault =>
        let fault := if dest.getLast? = some '/' then .os .notDirectory else fault
        refused name 1 ("cannot create regular file ".toList ++ quote dest) fault

mutual

/-- Copies what stands at a path; `follow` says whether links are followed. -/
def copyNode (name : Text) (follow : Bool) (source dest : Text) : Node → Act Nat
  | .file content executable => copyContent name source dest content executable
  | .link target => do
    match follow, (← store).nodeAt true source.bytes with
    | true, .ok (.file content executable) => copyContent name source dest content executable
    | true, .error fault => refused name 1 ("cannot stat ".toList ++ quote source) fault
    | _, _ =>
      if (entryAt? (← store) dest).any (!·.isDir) then
        let _ ← files (Files.removeFile dest.bytes)
      match ← files (Files.makeLink target dest.bytes) with
      | .ok () => return 0
      | .error fault => refused name 1 ("cannot create symbolic link ".toList ++ quote dest) fault
  | .dir entries => do
    match (← store).nodeAt true dest.bytes with
    | .ok (.dir _) => copyEntries name follow source dest entries
    | .ok _ =>
      failAs name 1 ("cannot overwrite non-directory ".toList ++ quote dest ++ " with directory ".toList
        ++ quote source)
    | .error _ =>
      match ← files (Files.makeDir dest.bytes) with
      | .ok () => copyEntries name follow source dest entries
      | .error fault => refused name 1 ("cannot create directory ".toList ++ quote dest) fault

/-- Copies the entries of a directory. -/
def copyEntries (name : Text) (follow : Bool) (source dest : Text) : List (Name × Node) → Act Nat
  | [] => return 0
  | (entry, node) :: rest => do
    let e := Text.ofBytes entry
    let first ← copyNode name follow (below source e) (below dest e) node
    let others ← copyEntries name follow source dest rest
    return if first ≠ 0 then first else others

end

def cp : Command :=
  .withFlags ([.plain "r" ["recursive"], .plain "R" [], .plain "a" ["archive"], .plain "f" ["force"],
    .plain "p" [], .plain "d" [], .plain "P" ["no-dereference"], .plain "L" ["dereference"],
    .plain "n" ["no-clobber"], .plain "v" ["verbose"], .valued "t" ["target-directory"],
    .plain "T" ["no-target-directory"], .plain "u" [], .plain "i" ["interactive"], .plain "H" [],
    .plain "l" ["link"], .plain "s" ["symbolic-link"], .plain "x" ["one-file-system"],
    ⟨"preserve", ["preserve"], .attached⟩, ⟨"update", ["update"], .attached⟩,
    ⟨"reflink", ["reflink"], .attached⟩, .plain "slashes" ["strip-trailing-slashes"],
    .plain "parents" ["parents"], .plain "destroy" ["remove-destination"]]) 1 fun name a => do
    let whole := a.has "r" || a.has "R" || a.has "a"
    let keepLinks := (whole || a.has "d" || a.has "P") && !a.has "L"
    forRouted name a fun source dest => do
      let s ← store
      match s.nodeAt (!keepLinks) source.bytes with
      | .error fault => refused name 1 ("cannot stat ".toList ++ quote source) fault
      | .ok node =>
        if node.isDir && !whole then
          failAs name 1 ("-r not specified; omitting directory ".toList ++ quote source)
        else if a.has "n" && (entryAt? s dest).isSome then return 0
        else
          let inside := node.isDir && (match s.placeOf true source.bytes, s.place dest.bytes with
            | .ok p, .ok ⟨dir, .name n, _⟩ => p.isPrefixOf (dir ++ [n])
            | _, _ => false)
          if inside && samePlace s source dest then
            failAs name 1 (quote source ++ " and ".toList ++ quote dest ++ " are the same file".toList)
          else
            if a.has "destroy" then
              let _ ← files (Files.removeFile dest.bytes)
            let status ← copyNode name (!keepLinks) source dest node
            if inside then
              failAs name 1 ("cannot copy a directory, ".toList ++ quote source ++ ", into itself, ".toList
                ++ quote dest)
            else
              if a.has "v" && status = 0 then printLine (quote source ++ " -> ".toList ++ quote dest)
              return status

def mv : Command :=
  .withFlags [.plain "f" ["force"], .plain "n" ["no-clobber"], .plain "v" ["verbose"],
    .valued "t" ["target-directory"], .plain "T" ["no-target-directory"], .plain "u" ["update"],
    .plain "i" ["interactive"], .plain "Z" [], .plain "slashes" ["strip-trailing-slashes"]] 1
    fun name a =>
    forRouted name a fun source dest => do
      let s ← store
      match s.nodeAt false source.bytes with
      | .error fault => refused name 1 ("cannot stat ".toList ++ quote source) fault
      | .ok node =>
        let there := entryAt? s dest
        if a.has "n" && there.isSome then return 0
        else
          let same := match s.place source.bytes, s.place dest.bytes with
            | .ok p, .ok q => p.dir == q.dir && p.last == q.last
            | _, _ => false
          if same then
            failAs name 1 (quote source ++ " and ".toList ++ quote dest ++ " are the same file".toList)
          else if node.isDir && there.any (!·.isDir) then
            failAs name 1 ("cannot overwrite non-directory ".toList ++ quote dest ++ " with directory ".toList
              ++ quote source)
          else if !node.isDir && there.any Node.isDir then
            failAs name 1 ("cannot overwrite directory ".toList ++ quote dest ++ " with non-directory".toList)
          else
            match ← files (Files.rename source.bytes dest.bytes) with
            | .ok () =>
              if a.has "v" then printLine ("renamed ".toList ++ quote source ++ " -> ".toList ++ quote dest)
              return 0
            | .error fault =>
              if fault = .os .invalidArgument then
                failAs name 1 ("cannot move ".toList ++ quote source ++ " to a subdirectory of itself, ".toList
                  ++ quote dest)
              else
                refused name 1 ("cannot move ".toList ++ quote source ++ " to ".toList ++ quote dest) fault

def ln : Command :=
  .withFlags [.plain "s" ["symbolic"], .plain "f" ["force"], .plain "n" ["no-dereference"],
    .plain "T" ["no-target-directory"], .valued "t" ["target-directory"], .plain "v" ["verbose"],
    .plain "i" [], .plain "P" [], .plain "L" [], .plain "r" ["relative"], .plain "d" [], .plain "F" []] 1
    fun name a => do
    let a := match a.last? "t", a.operands with
      | none, [only] => { a with operands := [only, ['.']] }
      | _, _ => a
    let s ← store
    let onto := match a.operands.getLast? with
      | some dest => a.has "n" && (entryAt? s dest).any Node.isLink
      | none => false
    let a := if onto then { a with options := ("T", []) :: a.options } else a
    match a.last? "t" with
    | some dir =>
      if s.isDir dir.bytes then forRouted name a (link name a)
      else refused name 1 ("failed to access ".toList ++ quote dir) .notFound
    | none => forRouted name a (link name a)
where
  /-- Makes one link. -/
  link (name : Text) (a : Arguments) (target dest : Text) : Act Nat := do
    let s ← store
    let source := s.nodeAt false target.bytes
    if !a.has "s" && source.toOption.isNone then
      match source with
      | .error fault => refused name 1 ("failed to access ".toList ++ quote target) fault
      | .ok _ => return 0
    else if !a.has "s" && source.toOption.any Node.isDir then
      failAs name 1 (target ++ ": hard link not allowed for directory".toList)
    else
      if a.has "f" && (entryAt? s dest).any (!·.isDir) && !(samePlace s target dest && !a.has "s") then
        let _ ← files (Files.removeFile dest.bytes)
      let op : Files Unit := match a.has "s", source with
        | false, .ok (.file content executable) => do
          if (← get).hasEntry dest.bytes then Files.refuse .alreadyExists
          else
            Files.writeFile dest.bytes content
            if executable then Files.makeExecutable dest.bytes
        | false, .ok (.link body) => Files.makeLink body dest.bytes
        | _, _ => Files.makeLink target.bytes dest.bytes
      match ← files op with
      | .ok () =>
        if a.has "v" then
          printLine (quote dest ++ (if a.has "s" then " -> " else " => ").toList ++ quote target)
        return 0
      | .error fault =>
        let kind := if a.has "s" then "failed to create symbolic link " else "failed to create hard link "
        refused name 1 (kind.toList ++ quote dest) fault

/-- Copies files with a mode, or makes directories. -/
def install : Command :=
  .withFlags [.plain "d" ["directory"], .valued "m" ["mode"], .plain "D" [], .valued "t" ["target-directory"],
    .plain "T" ["no-target-directory"], .plain "v" ["verbose"], .plain "p" [], .plain "c" [], .plain "C" [],
    .valued "o" ["owner"], .valued "g" ["group"], .plain "s" []] 1 fun name a => do
    if a.has "d" then
      forEach a.operands fun path => do
        match ← files (Files.makeDirs path.bytes) with
        | .ok () => return 0
        | .error fault => refused name 1 ("cannot create directory ".toList ++ quote path) fault
    else
      if a.has "D" then
        match a.last? "t", a.operands with
        | some dir, _ =>
          let _ ← files (Files.makeDirs dir.bytes)
        | none, [_, dest] =>
          let _ ← files (Files.makeDirs (leadingPart dest).bytes)
        | none, _ => pure ()
      let executable := ((a.last? "m").bind fun mode => executableAfter? mode false false).getD true
      forRouted name a fun source dest => do
        match (← store).nodeAt true source.bytes with
        | .error fault => refused name 1 ("cannot stat ".toList ++ quote source) fault
        | .ok (.file content _) =>
          let status ← copyContent name source dest content executable
          if status = 0 then setExecutable dest executable
          return status
        | .ok _ => failAs name 1 ("omitting directory ".toList ++ quote source)

def truncate : Command :=
  .withFlags [.valued "s" ["size"], .plain "c" ["no-create"], .valued "r" ["reference"], .plain "o" []] 1
    fun name a => do
    match a.last? "s" with
    | none => misused name 1 "you must specify either '--size' or '--reference'".toList
    | some size =>
      match Text.toNat? (size.dropWhile "+-".toList.contains) with
      | none => failAs name 1 ("Invalid number: ".toList ++ quote size)
      | some n =>
        if a.operands.isEmpty then misused name 1 "missing file operand".toList
        else
          forEach a.operands fun path => do
            if a.has "c" && !(← store).present path.bytes then return 0
            else
              let old := ((← files (Files.readFile path.bytes)).toOption.map Content.bytes).getD []
              let wanted := match size.head? with
                | some '+' => old.length + n
                | some '-' => old.length - n
                | _ => n
              let bytes := old.take wanted ++ List.replicate (wanted - old.length) 0
              match ← files (Files.writeFile path.bytes (.plain bytes)) with
              | .ok () => return 0
              | .error fault => refused name 1 ("cannot open ".toList ++ quote path ++ " for writing".toList) fault

/-- Makes a file or a directory under a name that no other one has. -/
def mktemp : Command :=
  .withFlags [.plain "d" ["directory"], .plain "u" ["dry-run"], .plain "q" ["quiet"], .plain "t" [],
    ⟨"tmpdir", ["tmpdir"], .attached⟩, .valued "p" [], .valued "suffix" ["suffix"]] 1 fun name a => do
    let number ← newNumber
    let p ← get
    let template := a.operands.headD "tmp.XXXXXXXXXX".toList
    let marks := (template.reverse.takeWhile (· = 'X')).length
    if a.operands.length > 1 then misused name 1 "too many templates".toList
    else if marks < 3 then failAs name 1 ("too few X's in template ".toList ++ quote template)
    else
      let digits := Decimal.padded marks number
      let last := template.take (template.length - marks) ++ digits.drop (digits.length - marks)
        ++ (a.last? "suffix").getD []
      let usual := (p.environmentValue? "TMPDIR").getD "/tmp".toList
      let path := match a.last? "p" with
        | some dir => below dir last
        | none =>
          if a.operands.isEmpty || a.has "t" || a.has "tmpdir" then below usual last else last
      let op := if a.has "d" then Files.makeDir path.bytes else Files.writeFile path.bytes default
      match ← files op with
      | .ok () =>
        printLine path
        return 0
      | .error fault =>
        let kind := if a.has "d" then "failed to create directory via template "
          else "failed to create file via template "
        refused name 1 (kind.toList ++ quote template) fault

/-! ## Looking -/

/-- The mark behind a listed name that shows its kind. -/
def kindMark (all : Bool) (node : Option Node) : Text :=
  match node with
  | some (.dir _) => ['/']
  | some (.link _) => if all then ['@'] else []
  | some (.file _ true) => if all then ['*'] else []
  | _ => []

/-- The letters for what may be done with a file; only whether it may be run is known. -/
def permissionLetters : Node → Text
  | .dir _ => "drwxr-xr-x".toList
  | .link _ => "lrwxrwxrwx".toList
  | .file _ true => "-rwxr-xr-x".toList
  | .file _ false => "-rw-r--r--".toList

/-- How many bytes a file has, as listings show it. -/
def listedSize : Node → Nat
  | .dir _ => 4096
  | .link target => target.length
  | .file content _ => content.bytes.length

/-- Lines that tell more of files than their names. All times are the beginning of time. -/
def longLines (files : List (Text × Node)) : List Text :=
  let sizes := files.map fun file => Text.ofNat (listedSize file.2)
  let width := (sizes.map List.length).foldl max 0
  (files.zip sizes).map fun ((name, node), size) =>
    let links := if node.isDir then ['2'] else ['1']
    let target := match node with
      | .link target => " -> ".toList ++ Text.ofBytes target
      | _ => []
    permissionLetters node ++ ' ' :: links ++ " root root ".toList ++ List.replicate (width - size.length) ' '
      ++ size ++ " Jan  1  1970 ".toList ++ name ++ target

/-- Names as they are listed, perhaps with more about what they name. -/
def listedLines (a : Arguments) (files : List (Text × Option Node)) : List Text :=
  let named := files.map fun (name, node) =>
    (if a.has "F" then name ++ kindMark true node
      else if a.has "p" then name ++ kindMark false node
      else name, node)
  if a.has "l" || a.has "o" || a.has "g" then
    longLines (named.map fun (name, node) => (name, node.getD .emptyDir))
  else named.map (·.1)

/-- The lines of a directory's listing. -/
def listedNames (a : Arguments) (entries : List (Name × Node)) : List Text :=
  let own := entries.map fun (name, node) => (Text.ofBytes name, some node)
  let dots : List (Text × Option Node) :=
    if a.has "a" || a.has "f" then [(['.'], some .emptyDir), (['.', '.'], some .emptyDir)] else []
  let all := dots ++ own
  let visible := all.filter fun (name, _) => a.has "a" || a.has "A" || a.has "f" || name.head? ≠ some '.'
  let sorted := visible.mergeSort fun x y => Text.notAfter x.1 y.1
  listedLines a (if a.has "r" then sorted.reverse else sorted)

/-- Prints names in the way that was asked for. -/
def printNames (a : Arguments) (long : Bool) (names : List Text) : Act Unit := do
  if long then printLine "total 0".toList
  if a.has "m" then
    if !names.isEmpty then printLine (Text.join ", ".toList names)
  else print (Text.unlines names)

mutual

/-- Lists a directory, and the directories in it if asked to. -/
def listDir (a : Arguments) (headed : Bool) (path : Text) : Node → Act Unit
  | .dir entries => do
    if headed then printLine (path ++ [':'])
    printNames a (a.has "l") (listedNames a entries)
    if a.has "R" then listBelow a path entries
  | _ => pure ()

/-- Lists the directories among entries. -/
def listBelow (a : Arguments) (dir : Text) : List (Name × Node) → Act Unit
  | [] => pure ()
  | (entry, node) :: rest => do
    let name := Text.ofBytes entry
    if node.isDir && (a.has "a" || a.has "A" || name.head? ≠ some '.') then
      printLine []
      listDir a true (below dir name) node
    listBelow a dir rest

end

def ls : Command :=
  .withFlags (Flag.letters "1ClxmUStXcuhikgnoGNQqvLHsbB" ++ [.plain "a" ["all"], .plain "A" ["almost-all"],
    .plain "d" ["directory"], .plain "R" ["recursive"], ⟨"F", ["classify"], .attached⟩, .plain "p" [],
    .plain "r" ["reverse"], .plain "f" [], ⟨"color", ["color"], .attached⟩, .valued "I" ["ignore"],
    .valued "w" ["width"], .valued "sort" ["sort"], .valued "format" ["format"],
    .plain "group" ["group-directories-first"], .plain "human" ["human-readable"],
    .valued "style" ["time-style"], .plain "full" ["full-time"]]) 2 fun name a => do
    let operands := if a.operands.isEmpty then [['.']] else a.operands
    let s ← store
    let status ← forEach operands fun path => do
      match s.nodeAt false path.bytes with
      | .ok _ => return 0
      | .error fault => refused name 2 ("cannot access ".toList ++ quote path) fault
    let known := operands.filter fun (path : Text) => s.hasEntry path.bytes
    let known := known.mergeSort Text.notAfter
    let known := if a.has "r" then known.reverse else known
    let isLink (path : Text) : Bool := (entryAt? s path).any Node.isLink
    let isListed (path : Text) : Bool :=
      s.isDir path.bytes && !a.has "d" && !((a.has "l" || a.has "F") && isLink path)
    let plain := known.filter (!isListed ·)
    let dirs := known.filter isListed
    let shown := listedLines a (plain.map fun (path : Text) => (path, entryAt? s path))
    if !plain.isEmpty then printNames a false shown
    let headed := operands.length > 1 || a.has "R"
    let rec each : Bool → List Text → Act Unit
      | _, [] => pure ()
      | blank, path :: rest => do
        if blank then printLine []
        match s.nodeAt true path.bytes with
        | .ok node => listDir a headed path node
        | .error _ => pure ()
        each true rest
    each (!plain.isEmpty) dirs
    return status

/-- The full path of a place. -/
def fullPath (place : List Name) : Text := Text.ofBytes (Store.placeText place)

/-- A path with all links followed: all of it has to be there, all but the last name, or nothing. -/
def canonical? (s : Store) (all none' : Bool) (path : Text) : Except IoFault Text :=
  match s.locate true path.bytes with
  | .ok (.taken place) => .ok (fullPath place)
  | .ok (.free dir name) => if all then .error .notFound else .ok (fullPath (dir ++ [name]))
  | .error fault =>
    if none' then
      let start := if path.head? = some '/' then [] else s.cwd
      let places := (Route.hopsOf path.bytes).foldl (fun place hop =>
        match hop with
        | .here => place
        | .up => place.dropLast
        | .into name => place ++ [name]) start
      .ok (fullPath places)
    else .error fault

def readlink : Command :=
  .withFlags [.plain "f" ["canonicalize"], .plain "e" ["canonicalize-existing"],
    .plain "m" ["canonicalize-missing"], .plain "n" ["no-newline"], .plain "q" ["quiet"], .plain "s" ["silent"],
    .plain "v" ["verbose"], .plain "z" ["zero"]] 1 fun name a => do
    let ends : Text := if a.has "n" then [] else if a.has "z" then ['\x00'] else ['\n']
    if a.operands.isEmpty then lacksOperand name 1
    else
      forEach a.operands fun path => do
        let s ← store
        let found := if a.has "f" || a.has "e" || a.has "m" then
            canonical? s (a.has "e") (a.has "m") path
          else
            match s.nodeAt false path.bytes with
            | .ok (.link target) => .ok (Text.ofBytes target)
            | .ok _ => .error (.os .invalidArgument)
            | .error fault => .error fault
        match found with
        | .ok t =>
          print (t ++ ends)
          return 0
        | .error fault => if a.has "v" then refusedFile name 1 path fault else return 1

def realpath : Command :=
  .withFlags [.plain "e" ["canonicalize-existing"], .plain "m" ["canonicalize-missing"], .plain "q" ["quiet"],
    .plain "s" ["strip", "no-symlinks"], .plain "L" ["logical"], .plain "P" ["physical"], .plain "z" ["zero"],
    .valued "to" ["relative-to"], .valued "base" ["relative-base"]] 1 fun name a => do
    if a.operands.isEmpty then lacksOperand name 1
    else
      forEach a.operands fun path => do
        let s ← store
        match canonical? s (a.has "e") (a.has "m") path, (a.last? "to").map (canonical? s false true) with
        | .ok t, some (.ok base) =>
          printLine (relative (Text.splitAt '/' base) (Text.splitAt '/' t))
          return 0
        | .ok t, _ =>
          printLine t
          return 0
        | .error fault, _ => if a.has "q" then return 1 else refusedFile name 1 path fault
where
  /-- A path as it is seen from another one, both in parts. -/
  relative : List Text → List Text → Text
    | x :: base, y :: path =>
      if x = y then relative base path
      else Text.join ['/'] (List.replicate (base.length + 1) ['.', '.'] ++ y :: path)
    | [], [] => ['.']
    | [], path => Text.join ['/'] path
    | base, [] => Text.join ['/'] (base.map fun _ => ['.', '.'])

/-- Prints what is known of files, as a format asks. -/
def stat : Command :=
  .withFlags [.valued "c" ["format"], .plain "L" ["dereference"], .plain "t" ["terse"], .plain "f" [],
    .valued "printf" ["printf"]] 1 fun name a => do
    if a.operands.isEmpty then lacksOperand name 1
    else
      forEach a.operands fun path => do
        match (← store).nodeAt (a.has "L") path.bytes with
        | .error fault => refused name 1 ("cannot statx ".toList ++ quote path) fault
        | .ok node =>
          let size := match node with
            | .file content _ => content.bytes.length
            | .link target => target.length
            | .dir _ => 4096
          let kind := match node with
            | .file content _ => if content.bytes.isEmpty then "regular empty file" else "regular file"
            | .link _ => "symbolic link"
            | .dir _ => "directory"
          let mode := match node with
            | .file _ executable => if executable then "755" else "644"
            | .link _ => "777"
            | .dir _ => "755"
          let rec fill : Text → Text
            | '%' :: 's' :: rest => Text.ofNat size ++ fill rest
            | '%' :: 'n' :: rest => path ++ fill rest
            | '%' :: 'N' :: rest => quote path ++ fill rest
            | '%' :: 'F' :: rest => kind.toList ++ fill rest
            | '%' :: 'a' :: rest => mode.toList ++ fill rest
            | '%' :: 'U' :: rest | '%' :: 'G' :: rest => "root".toList ++ fill rest
            | '%' :: 'u' :: rest | '%' :: 'g' :: rest => '0' :: fill rest
            | '%' :: '%' :: rest => '%' :: fill rest
            | c :: rest => c :: fill rest
            | [] => []
          match a.last? "c", a.last? "printf" with
          | some format, _ => printLine (fill format)
          | none, some format => print (Escape.replace .posix (fill format)).text
          | none, none => printLine ("  File: ".toList ++ path)
          return 0

end StubRelease.Shell.Utility
