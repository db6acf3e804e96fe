/-
# StubRelease.Shell.Pattern -- patterns of names

A pattern is made of characters that stand for themselves, of `?` for any character, of `*` for any text
and of sets in brackets; where it may have groups, a group stands for one of several patterns, some times over. A
pattern is matched against a whole text by keeping the rests of it that may come next.
-/
import StubRelease.Shell.Text

namespace StubRelease.Shell

/-- A part of a set in brackets. -/
inductive SetItem where
  | range (low high : Char)
  | kind (name : String)
deriving DecidableEq, Repr

/-- Whether a character is of a named kind. -/
def isOfKind (name : String) (c : Char) : Bool :=
  match name with
  | "alpha" => c.isAlpha
  | "digit" => c.isDigit
  | "alnum" => c.isAlphanum
  | "upper" => c.isUpper
  | "lower" => c.isLower
  | "space" => Text.isSpace c
  | "blank" => Text.isBlank c
  | "punct" => '!' ≤ c && c ≤ '~' && !c.isAlphanum
  | "print" => ' ' ≤ c && c ≤ '~'
  | "graph" => '!' ≤ c && c ≤ '~'
  | "cntrl" => c < ' ' || c = '\x7f'
  | "xdigit" => (Text.hexValue? c).isSome
  | _ => false

namespace SetItem

def holds : SetItem → Char → Bool
  | range low high, c => low ≤ c && c ≤ high
  | kind name, c => isOfKind name c

/-- Whether a range is not the wrong way round, and a kind is known. -/
def isSound : SetItem → Bool
  | range low high => low ≤ high
  | kind name => ["alpha", "digit", "alnum", "upper", "lower", "space", "blank", "punct", "print", "graph", "cntrl",
    "xdigit"].contains name

end SetItem

/-- A part of a pattern. -/
inductive Piece where
  | char (c : Char)
  | one
  | many
  | oneOf (negated : Bool) (items : List SetItem)
  /-- Patterns one of which comes as often as a sign says, or none of which comes. -/
  | group (sign : Char) (choices : List (List Piece))

/-- A pattern. -/
abbrev Pattern := List Piece

/-- How patterns are read. -/
structure PatternManner where
  /-- The signs that negate a set of characters. -/
  negations : List Char
  /-- Whether there are groups. -/
  groups : Bool
  /-- Whether letters stand for capitals and small ones. -/
  caseless : Bool

namespace PatternManner

/-- As programs other than shells read patterns. -/
def usual : PatternManner := ⟨['!', '^'], false, false⟩

end PatternManner

namespace Pattern

/-- The ways to cut a text in two, the shortest first part first. -/
def cuts (t : Text) : List (Text × Text) := (List.range (t.length + 1)).map fun n => (t.take n, t.drop n)

/-- The rests of a pattern that may come next. -/
def openings : Pattern → List Pattern
  | .many :: rest => (.many :: rest) :: openings rest
  | pattern => [pattern]

/-- The rests of a pattern without groups after one character. -/
def advance (c : Char) : Pattern → List Pattern
  | .char d :: rest => if c = d then openings rest else []
  | .one :: rest => openings rest
  | .oneOf negated items :: rest => if items.any (·.holds c) != negated then openings rest else []
  | .many :: rest => [.many :: rest] ++ openings rest
  | .group _ _ :: _ => []
  | [] => []

/-- Rests of one pattern are the same if they are as long. -/
def distinct (rests : List Pattern) : List Pattern := rests.eraseDupsBy fun p q => p.length == q.length

mutual

/-- How many parts a part has. -/
def weight : Piece → Nat
  | .group _ choices => 1 + weightOfChoices choices
  | _ => 1

def weightOfChoices : List (List Piece) → Nat
  | [] => 0
  | choice :: rest => 1 + weightOf choice + weightOfChoices rest

/-- How many parts a pattern has in all. -/
def weightOf : List Piece → Nat
  | [] => 0
  | p :: rest => weight p + weightOf rest

end

/-- Whether a pattern, perhaps with groups, matches a whole text. Each step takes a part off the pattern or a
character off the text, and the number bounds the steps. -/
def fits : Nat → Pattern → Text → Bool
  | 0, _, _ => false
  | _, [], t => t.isEmpty
  | n + 1, .group sign choices :: rest, t =>
    let isChoice (u : Text) : Bool := choices.any fun choice => fits n choice u
    match sign with
    | '!' => (cuts t).any fun (u, v) => !isChoice u && fits n rest v
    | '@' => (cuts t).any fun (u, v) => isChoice u && fits n rest v
    | '?' => fits n rest t || (cuts t).any fun (u, v) => isChoice u && fits n rest v
    | _ =>
      (sign = '*' && fits n rest t) || (cuts t).any fun (u, v) =>
        isChoice u && (if u.isEmpty then fits n rest v else fits n (.group '*' choices :: rest) v)
  | n + 1, .many :: rest, t =>
    fits n rest t || (match t with
      | _ :: t => fits n (.many :: rest) t
      | [] => false)
  | _, _ :: _, [] => false
  | n + 1, .char d :: rest, c :: t => c = d && fits n rest t
  | n + 1, .one :: rest, _ :: t => fits n rest t
  | n + 1, .oneOf negated items :: rest, c :: t => (items.any (·.holds c) != negated) && fits n rest t

/-- Whether a pattern has groups. -/
def hasGroups (pattern : Pattern) : Bool :=
  pattern.any fun
    | .group _ _ => true
    | _ => false

/-- Whether a pattern matches a whole text. Without groups it is enough to keep the rests that may come next. -/
def isMatch (pattern : Pattern) (text : Text) : Bool :=
  if pattern.hasGroups then fits (weightOf pattern + text.length + 1) pattern text
  else (text.foldl (fun rests c => distinct (rests.flatMap (advance c))) (openings pattern)).any (·.isEmpty)

/-- Whether a pattern has a part that does not stand for itself. -/
def isPlain (pattern : Pattern) : Bool :=
  pattern.all fun
    | .char _ => true
    | _ => false

/-- The text a plain pattern stands for. -/
def text (pattern : Pattern) : Text :=
  pattern.filterMap fun
    | .char c => some c
    | _ => none

/-! ## Reading -/

/-- A character of a pattern's text, and whether it can only stand for itself. -/
structure Mark where
  char : Char
  literal : Bool
deriving DecidableEq, Repr

/-- The set that comes next, after its opening bracket and sign, and what follows it. `began` says whether
something of the set was read already: a closing bracket in front is a member. `spelled` says whether a character may
be spelled out between points or equals signs in brackets. The number bounds the items. -/
def setItems (spelled : Bool) : Nat → Bool → List Mark → Option (List SetItem × List Mark)
  | 0, _, _ => none
  | _, _, [] => none
  | n + 1, began, m :: rest =>
    let item (i : SetItem) (rest : List Mark) : Option (List SetItem × List Mark) :=
      (setItems spelled n true rest).map fun (items, rest) => (i :: items, rest)
    let kind := (rest.drop 1).takeWhile fun m => m.char.isAlpha
    let opens := m.char = '[' && !m.literal
    let spelling (c : Char) : Bool := spelled && opens && rest.head?.any (·.char = c)
    if m.char = ']' && !m.literal && began then some ([], rest)
    else if opens && (rest.head?.map (·.char)) = some ':'
        && ((rest.drop (1 + kind.length)).take 2).map (·.char) = [':', ']'] then
      item (.kind (String.ofList (kind.map (·.char)))) (rest.drop (3 + kind.length))
    else if spelling ':' || (spelling '.' || spelling '=') && ((rest.drop 2).take 2).map (·.char) ≠
        [(rest.headD m).char, ']'] then none
    else
      let start (m : Mark) (rest : List Mark) : Char × List Mark :=
        if m.char = '[' && !m.literal && spelled && rest.head?.any (fun r => r.char = '.' || r.char = '=') then
          ((rest.drop 1).head?.elim m.char (·.char), rest.drop 4)
        else (m.char, rest)
      let (low, rest) := start m rest
      match rest with
      | dash :: high :: rest' =>
        if dash.char = '-' && !dash.literal && !(high.char = ']' && !high.literal) then
          let (high, rest') := start high rest'
          item (.range low high) rest'
        else item (.range low low) rest
      | _ => item (.range low low) rest

/-- The alternatives of a group up to its closing parenthesis, and what follows it. `depth` counts open
parentheses. -/
def choices? : Nat → List Mark → Option (List (List Mark) × List Mark)
  | _, [] => none
  | depth, m :: rest =>
    let sign (c : Char) : Bool := m.char = c && !m.literal
    if sign ')' && depth = 0 then some ([[]], rest)
    else
      let deeper := if sign '(' then depth + 1 else if sign ')' then depth - 1 else depth
      (choices? deeper rest).map fun (all, after) =>
        if sign '|' && depth = 0 then ([] :: all, after)
        else
          match all with
          | first :: others => ((m :: first) :: others, after)
          | [] => ([[m]], after)

/-- The range of the other case's letters, if a range is of letters of one case. -/
def otherCase? (item : SetItem) : Option SetItem :=
  match item with
  | .range low high =>
    if low.isLower && high.isLower then some (.range low.toUpper high.toUpper)
    else if low.isUpper && high.isUpper then some (.range low.toLower high.toLower)
    else none
  | .kind name => if name = "lower" then some (.kind "upper") else if name = "upper" then some (.kind "lower") else none

/-- A character that stands for itself. -/
def plainPiece (manner : PatternManner) (c : Char) : Piece :=
  if manner.caseless && c.isAlpha then .oneOf false [.range c.toLower c.toLower, .range c.toUpper c.toUpper]
  else .char c

/-- Reads a pattern. An opening bracket without a closing one stands for itself. The number bounds the
parts. -/
def readFrom (manner : PatternManner) : Nat → List Mark → Pattern
  | 0, _ => []
  | _, [] => []
  | n + 1, m :: rest =>
    let plain (c : Char) : Piece := plainPiece manner c
    let opens := manner.groups && !m.literal && "?*+@!".toList.contains m.char
      && rest.head?.any fun s => s.char = '(' && !s.literal
    match if opens then choices? 0 (rest.drop 1) else none with
    | some (all, after) => .group m.char (all.map (readFrom manner n)) :: readFrom manner n after
    | none =>
      if m.literal then plain m.char :: readFrom manner n rest
      else
        match m.char with
        | '*' => .many :: readFrom manner n rest
        | '?' => .one :: readFrom manner n rest
        | '\\' =>
          match rest with
          | next :: rest => plain next.char :: readFrom manner n rest
          | [] => [.char '\\']
        | '[' =>
          let negated := rest.head?.any fun s => manner.negations.contains s.char && !s.literal
          match setItems false (rest.length + 1) false (if negated then rest.drop 1 else rest) with
          | some (items, rest) =>
            let items := if manner.caseless then items ++ items.filterMap otherCase? else items
            .oneOf negated items :: readFrom manner n rest
          | none => .char '[' :: readFrom manner n rest
        | c => plain c :: readFrom manner n rest

/-- Reads a pattern. -/
def read (manner : PatternManner) (marks : List Mark) : Pattern := readFrom manner marks.length marks

/-! ## Parts of a text -/

/-- What is left of a text when a part of it that matches is taken off its start. -/
def dropStart (p : Pattern) (longest : Bool) (t : Text) : Text :=
  let ways := if longest then (cuts t).reverse else cuts t
  ((ways.find? fun w => p.isMatch w.1).map (·.2)).getD t

/-- What is left of a text when a part of it that matches is taken off its end. -/
def dropEnd (p : Pattern) (longest : Bool) (t : Text) : Text :=
  let ways := if longest then cuts t else (cuts t).reverse
  ((ways.find? fun w => p.isMatch w.2).map (·.1)).getD t

/-- The longest non-empty start of a text that matches, and what follows it. -/
def longestStart? (p : Pattern) (t : Text) : Option (Text × Text) :=
  (cuts t).reverse.find? fun w => !w.1.isEmpty && p.isMatch w.1

/-- Replaces parts of a text that match, the first one or all, by what is made of them. The number bounds the
steps. -/
def replace (p : Pattern) (all : Bool) (change : Text → Text) : Nat → Text → Text
  | 0, t => t
  | _, [] => []
  | n + 1, c :: rest =>
    match p.longestStart? (c :: rest) with
    | some (found, after) => change found ++ (if all then replace p all change n after else after)
    | none => c :: replace p all change n rest

end Pattern

end StubRelease.Shell
