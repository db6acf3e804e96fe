/-
# StubRelease.Shell.Field -- fields

A word is expanded to segments: characters that remember where they come from, marks where something quoted
stands, and cuts between arguments. Segments are split into fields at separators that come from an
expansion, and a field with unquoted pattern characters is replaced by the names it matches. What comes from
quotes or from the script itself is never split.
-/
import StubRelease.Shell.Pattern
import StubRelease.Tree.Store

namespace StubRelease.Shell

/-- Where a character of a word comes from. -/
inductive Origin where
  /-- From the script itself, unquoted. -/
  | literal
  /-- From quotes. -/
  | quoted
  /-- From an unquoted expansion. -/
  | expanded
deriving DecidableEq, Repr

/-- A part of an expanded word. -/
inductive Segment where
  | glyph (char : Char) (origin : Origin)
  /-- Something quoted stands here, perhaps with no characters. -/
  | mark
  /-- One argument ends here and another begins. -/
  | cut
deriving DecidableEq, Repr

/-- An expanded word. -/
abbrev Segments := List Segment

namespace Segments

/-- The segments of a text. -/
def ofText (origin : Origin) (t : Text) : Segments := t.map (.glyph · origin)

/-- The characters of segments, blanks where they are cut. -/
def text (segments : Segments) : Text :=
  segments.filterMap fun
    | .glyph c _ => some c
    | .mark => none
    | .cut => some ' '

/-- Segments as parts of a pattern's text. -/
def patternMarks (segments : Segments) : List Pattern.Mark :=
  segments.filterMap fun
    | .glyph c origin => some ⟨c, origin = .quoted⟩
    | .mark => none
    | .cut => some ⟨' ', true⟩

/-- What comes unquoted from the script, as if it came from an expansion. -/
def asExpanded (segments : Segments) : Segments :=
  segments.map fun
    | .glyph c .literal => .glyph c .expanded
    | s => s

/-- Whether a segment separates fields, for the given separators. -/
def separates (separators : Text) : Segment → Bool
  | .glyph c .expanded => separators.contains c
  | _ => false

/-! ## Splitting -/

/-- Fields under construction: those that are finished, the current one, and whether blanks have just ended
one, so that a separator that follows belongs to them. -/
structure Splitting where
  finished : List Segments
  current : Option Segments
  afterBlanks : Bool

namespace Splitting

def empty : Splitting := ⟨[], none, false⟩

/-- Ends the current field, if there is one. -/
def close (s : Splitting) : Splitting :=
  match s.current with
  | some field => ⟨s.finished ++ [field], none, false⟩
  | none => s

/-- Takes one segment in. -/
def step (separators : Text) (s : Splitting) (x : Segment) : Splitting :=
  match x with
  | .cut => { s.close with afterBlanks := false }
  | .mark => { s with current := some (s.current.getD []), afterBlanks := false }
  | .glyph c _ =>
    if separates separators x then
      if Text.isBlank c || c = '\n' then
        if s.current.isSome then { s.close with afterBlanks := true } else s
      else if s.afterBlanks then { s with afterBlanks := false }
      else ⟨s.finished ++ [s.current.getD []], none, false⟩
    else { s with current := some (s.current.getD [] ++ [x]), afterBlanks := false }

end Splitting

/-- The fields of segments. -/
def fields (separators : Text) (segments : Segments) : List Segments :=
  (segments.foldl (Splitting.step separators) .empty).close.finished

/-! ## Splitting into a number of fields -/

/-- Takes the first field off, and says whether a separator ended it. -/
def takeField (separators : Text) : Segments → Segments → Segments × Segments
  | taken, [] => (taken.reverse, [])
  | taken, x :: rest =>
    if separates separators x then
      let isBlank (y : Segment) : Bool := match y with
        | .glyph c .expanded => separators.contains c && (Text.isBlank c || c = '\n')
        | _ => false
      let after := rest.dropWhile isBlank
      let after := if isBlank x then
          match after with
          | y :: more => if separates separators y then more.dropWhile isBlank else after
          | [] => after
        else after
      (taken.reverse, after)
    else takeField separators (x :: taken) rest

/-- Drops separators that are blanks at both ends. -/
def trimBlanks (separators : Text) (segments : Segments) : Segments :=
  let isBlank (y : Segment) : Bool := match y with
    | .glyph c .expanded => separators.contains c && (Text.isBlank c || c = '\n')
    | _ => false
  ((segments.dropWhile isBlank).reverse.dropWhile isBlank).reverse

/-- As many fields as wanted; the last one is all that is left, its separator dropped if nothing follows
it. -/
def someFields (separators : Text) : Nat → Segments → List Text
  | 0, _ => []
  | 1, segments =>
    let trimmed := trimBlanks separators segments
    match fields separators trimmed with
    | [only] => [text only]
    | _ => [text trimmed]
  | n + 1, segments =>
    let (first, rest) := takeField separators [] (trimBlanks separators segments)
    text first :: someFields separators n rest

/-! ## Names that match -/

/-- The parts of a path's pattern between slashes. -/
def pathParts (marks : List Pattern.Mark) : List (List Pattern.Mark) :=
  match marks with
  | [] => [[]]
  | m :: rest =>
    match pathParts rest with
    | [] => [[m]]
    | part :: parts => if m.char = '/' then [] :: part :: parts else (m :: part) :: parts

/-- How the names of files are matched. -/
structure NameManner where
  /-- Whether a directory lists itself and the one above. -/
  dots : Bool
  /-- Whether names that begin with a dot are like others. -/
  hidden : Bool
  /-- Whether two stars stand for directories in each other, however many. -/
  deep : Bool
  patterns : PatternManner

/-- The names in a directory that a pattern may match; one that begins with a dot only if the pattern
does or names are matched so. -/
def candidates (s : Store) (manner : NameManner) (dir : Text) (p : Pattern) : List Text :=
  let path : Text := if dir.isEmpty then ['.'] else dir
  match s.nodeAt true path.bytes with
  | .ok (.dir entries) =>
    let names := (if manner.dots then [['.'], ['.', '.']] else []) ++ entries.map (Text.ofBytes ·.1)
    let asksForDot := match p with
      | .char '.' :: _ => true
      | _ => false
    names.filter fun name => p.isMatch name && (name.head? ≠ some '.' || manner.hidden || asksForDot)
  | _ => []

/-- The paths of all that stands below a directory, but not behind links. The number bounds how deep it may stand. -/
def below (s : Store) (manner : NameManner) : Nat → Text → List Text
  | 0, _ => []
  | n + 1, dir =>
    (candidates s manner dir [.many]).flatMap fun name =>
      let path := dir ++ name
      if (s.nodeAt false path.bytes).toOption.any Node.isDir then path :: below s manner n (path ++ ['/']) else [path]

/-- How deep files are looked for; no path is long enough to lead deeper. -/
def deepest : Nat := 2048

/-- Whether a part of a path's pattern stands for directories in each other. -/
def NameManner.isDeep (manner : NameManner) (part : List Pattern.Mark) : Bool :=
  match Pattern.read manner.patterns part with
  | [.many, .many] => manner.deep
  | _ => false

/-- The paths that match, beginning with `path`, which is `plain` unless it was found itself. -/
def pathsFrom (s : Store) (manner : NameManner) (plain : Bool) (path : Text) :
    List (List Pattern.Mark) → List Text
  | [] => if s.hasEntry path.bytes then [path] else []
  | part :: rest =>
    let slash : Text := if rest.isEmpty then [] else ['/']
    let p := Pattern.read manner.patterns part
    if p.isPlain then pathsFrom s manner plain (path ++ p.text ++ slash) rest
    else if manner.isDeep part then
      if rest.head?.any manner.isDeep then pathsFrom s manner plain path rest
      else
        let all := below s { manner with dots := false } deepest path
        match rest with
        | [] =>
          let isFound := !path.isEmpty && s.isDir path.bytes
          (if !isFound then [] else if plain then [path] else [path.dropLast]) ++ all
        | _ :: _ =>
          let isLast := rest.all List.isEmpty
          let isGone (dir : Text) : Bool := !isLast && !(s.nodeAt false dir.bytes).toOption.any Node.isDir
          let dirs := all.filter fun dir => s.isDir dir.bytes && !isGone dir
          (if isLast && path.isEmpty then [] else pathsFrom s manner plain path rest)
            ++ dirs.flatMap fun dir => pathsFrom s manner false (dir ++ slash) rest
    else
      (candidates s manner path p).flatMap fun name =>
        if rest.isEmpty then [path ++ name]
        else if s.isDir (path ++ name).bytes then pathsFrom s manner false (path ++ name ++ slash) rest
        else []

/-- Whether a field has an unquoted character of a pattern, or the sign of a group where there are groups. -/
def isPattern (groups : Bool) : Segments → Bool
  | [] => false
  | .glyph c origin :: rest =>
    let opens := match rest with
      | .glyph '(' next :: _ => next ≠ .quoted
      | _ => false
    (origin ≠ .quoted && ("*?[".toList.contains c || (groups && opens && "+@!".toList.contains c)))
      || isPattern groups rest
  | _ :: rest => isPattern groups rest

/-- The names a field matches in ascending order, or the field itself if it matches none. -/
def names (s : Store) (manner : NameManner) (field : Segments) : List Text :=
  if !isPattern manner.patterns.groups field then [text field]
  else
    let parts := pathParts (patternMarks field)
    let found := match parts with
      | [] :: rest@(_ :: _) => pathsFrom s manner true ['/'] rest
      | _ => pathsFrom s manner true [] parts
    if found.isEmpty then [text field] else found.mergeSort Text.notAfter

end Segments

end StubRelease.Shell
