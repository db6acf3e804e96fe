/-
# StubRelease.Shell.Regex -- regular expressions

An expression is matched by following all the ways it can go on from a set of places at once, each place
with the groups matched on the way; the first way to a place counts. Of the matches that begin first the
longest one is taken.
-/
import StubRelease.Shell.Pattern

namespace StubRelease.Shell

/-- A regular expression. -/
inductive Regex where
  | empty
  | any
  | oneOf (negated : Bool) (items : List SetItem)
  | lineStart
  | lineEnd
  | textStart
  | textEnd
  /-- Where a line end comes before. -/
  | breakBefore
  /-- Where a line end comes next. -/
  | breakAfter
  | wordStart
  | wordEnd
  | wordEdge
  /-- Where no word begins or ends. -/
  | noWordEdge
  /-- Where no word character comes before. -/
  | noWordBefore
  /-- Where no word character comes next. -/
  | noWordAfter
  | seq (first second : Regex)
  | either (first second : Regex)
  | times (least : Nat) (most : Option Nat) (body : Regex)
  | group (number : Nat) (body : Regex)
  /-- What a group has matched. -/
  | again (number : Nat)
deriving Repr

namespace Regex

/-- A place in a line: how many characters were read, which they are, the last one first, what is left, and the groups
so far. -/
structure Spot where
  place : Nat
  before : Text
  after : Text
  groups : List (Nat × Text)
deriving DecidableEq, Repr

namespace Spot

/-- The places after one character of a kind. -/
def next (p : Char → Bool) (s : Spot) : List Spot :=
  match s.after with
  | c :: rest => if p c then [{ s with place := s.place + 1, before := c :: s.before, after := rest }] else []
  | [] => []

/-- The places along a run of characters of a kind, at most some of them, the farthest first. -/
def along (p : Char → Bool) : Nat → Spot → List Spot
  | 0, s => [s]
  | n + 1, s => (next p s).flatMap (along p n) ++ [s]

/-- The place after a text, if it comes next. -/
def through (same : Char → Char → Bool) : Text → Spot → List Spot
  | [], s => [s]
  | c :: cs, s => (next (same c) s).flatMap (through same cs)

def isWordChar (c : Char) : Bool := c.isAlphanum || c = '_'

def wordBefore (s : Spot) : Bool := s.before.head?.any isWordChar

def wordAfter (s : Spot) : Bool := s.after.head?.any isWordChar

end Spot

/-- The places that have read most, first; of those that have read as much as each other the first one. -/
def firsts (spots : List Spot) : List Spot :=
  ((spots.mergeSort fun s t => t.place ≤ s.place).foldl (fun kept s =>
    if kept.head?.any (·.place = s.place) then kept else s :: kept) []).reverse

/-- The places that more rounds of a step lead to, those of fewest rounds first. A round has to read something, and,
if `unique`, has to lead to a place that no round before led to. -/
def rounds (unique : Bool) (step : List Spot → List Spot) : Nat → List Nat → List Spot → List Spot
  | 0, _, spots => spots
  | n + 1, seen, spots =>
    let fresh := spots.flatMap fun s => (step [s]).filter fun t => s.place < t.place && !(unique && seen.contains t.place)
    let next := if unique then firsts fresh else fresh
    if next.isEmpty then spots else spots ++ rounds unique step n (next.map (·.place) ++ seen) next

/-- Takes a step a number of times. -/
def steps (step : List Spot → List Spot) : Nat → List Spot → List Spot
  | 0, spots => spots
  | n + 1, spots => steps step n (step spots)

/-- Whether an expression looks back at its groups. -/
def looksBack : Regex → Bool
  | seq a b | either a b => a.looksBack || b.looksBack
  | times _ _ a | group _ a => a.looksBack
  | again _ => true
  | _ => false

/-- Whether an expression has a group. -/
def hasGroup : Regex → Bool
  | seq a b | either a b => a.hasGroup || b.hasGroup
  | times _ _ a => a.hasGroup
  | group _ _ => true
  | _ => false

/-- The greatest number of a group. -/
def groupCount : Regex → Nat
  | seq r s | either r s => max r.groupCount s.groupCount
  | times _ _ r => r.groupCount
  | group n r => max n r.groupCount
  | _ => 0

/-- An expression that takes the lines in a text for lines. -/
def linewise : Regex → Regex
  | lineStart => either lineStart breakBefore
  | lineEnd => either lineEnd breakAfter
  | seq r s => seq r.linewise s.linewise
  | either r s => either r.linewise s.linewise
  | times least most r => times least most r.linewise
  | group n r => group n r.linewise
  | r => r

/-- What one character must be like for an expression to match it, if that is all the expression does. -/
def single? (same : Char → Char → Bool) : Regex → Option (Char → Bool)
  | any => some fun _ => true
  | oneOf negated items =>
    let holds (c : Char) : Bool :=
      items.any (·.holds c) || (same 'a' 'A' && (items.any (·.holds c.toLower) || items.any (·.holds c.toUpper)))
    some fun c => holds c != negated
  | _ => none

/-- The places an expression leads to, the preferred ones first. `same` says which characters are taken for
each other; if `unique`, one way to each place is enough. -/
def ends (same : Char → Char → Bool) (unique : Bool) : Regex → List Spot → List Spot
  | empty, spots => spots
  | any, spots => spots.flatMap (Spot.next fun _ => true)
  | oneOf negated items, spots =>
    ((single? same (oneOf negated items)).map fun p => spots.flatMap (Spot.next p)).getD []
  | lineStart, spots | textStart, spots => spots.filter (·.before.isEmpty)
  | lineEnd, spots | textEnd, spots => spots.filter (·.after.isEmpty)
  | breakBefore, spots => spots.filter (·.before.head? = some '\n')
  | breakAfter, spots => spots.filter (·.after.head? = some '\n')
  | wordStart, spots => spots.filter fun s => !s.wordBefore && s.wordAfter
  | wordEnd, spots => spots.filter fun s => s.wordBefore && !s.wordAfter
  | wordEdge, spots => spots.filter fun s => s.wordBefore != s.wordAfter
  | noWordEdge, spots => spots.filter fun s => s.wordBefore == s.wordAfter
  | noWordBefore, spots => spots.filter (!·.wordBefore)
  | noWordAfter, spots => spots.filter (!·.wordAfter)
  | seq a b, spots => ends same unique b (ends same unique a spots)
  | either a b, spots => keep (ends same unique a spots ++ ends same unique b spots)
  | times least most a, spots =>
    let bound (spots : List Spot) : Nat := (spots.map fun s => s.after.length).foldl max 0
    match single? same a with
    | some p =>
      keep (spots.flatMap fun s =>
        (s.along p (min (most.getD s.after.length) s.after.length)).filter fun t => s.place + least ≤ t.place)
    | none =>
      let step (spots : List Spot) : List Spot := keep (ends same unique a spots)
      let start := steps step least spots
      let more := min ((most.map (· - least)).getD (bound start + 1)) (bound start + 1)
      (keep (rounds unique step more (start.map (·.place)) start)).mergeSort fun s t => t.place ≤ s.place
  | group number a, spots =>
    keep (spots.flatMap fun s =>
      (ends same unique a [s]).map fun t =>
        let matched := t.before.take (t.place - s.place)
        { t with groups := (number, matched.reverse) :: t.groups.filter (·.1 ≠ number) })
  | again number, spots => spots.flatMap fun s => Spot.through same ((s.groups.lookup number).getD []) s
where
  keep (spots : List Spot) : List Spot := if unique then firsts spots else spots

/-- A match: what comes before it, what it matches, what comes after it, and its groups. -/
structure Match where
  before : Text
  text : Text
  after : Text
  groups : List (Nat × Text)

/-- The longest match that begins at a place. -/
def matchAt? (r : Regex) (ignoreCase : Bool) (s : Spot) : Option Match :=
  let same (c d : Char) : Bool := if ignoreCase then c.toLower = d.toLower else c = d
  let found := ends same (!r.looksBack) r [s]
  let best := found.foldl (fun (best : Option Spot) t =>
    match best with
    | some b => if b.place < t.place then some t else best
    | none => some t) none
  best.map fun t =>
    { before := s.before.reverse
      text := (t.before.take (t.place - s.place)).reverse
      after := t.after
      groups := t.groups }

/-- The longest match at the beginning of a line. -/
def matchStart? (r : Regex) (line : Text) : Option Match := matchAt? r false ⟨0, [], line, []⟩

/-- The first match from a place on; the number bounds how far it is looked for. -/
def search? (r : Regex) (ignoreCase : Bool) : Nat → Spot → Option Match
  | 0, s => matchAt? r ignoreCase s
  | n + 1, s =>
    match matchAt? r ignoreCase s with
    | some m => some m
    | none =>
      match s.after with
      | c :: rest => search? r ignoreCase n { s with place := s.place + 1, before := c :: s.before, after := rest }
      | [] => none

/-- The first match in a line. -/
def find? (r : Regex) (ignoreCase : Bool) (line : Text) : Option Match :=
  search? r ignoreCase line.length ⟨0, [], line, []⟩

/-- The first match that begins at or after a number of characters. -/
def findFrom? (r : Regex) (ignoreCase : Bool) (skipped : Nat) (line : Text) : Option Match :=
  search? r ignoreCase (line.length - skipped) ⟨min skipped line.length, (line.take skipped).reverse, line.drop skipped, []⟩

/-! ## Reading -/

/-- How expressions are written. -/
structure Form where
  /-- Whether operators are written without a backslash. -/
  extended : Bool
  /-- Whether an operator with nothing to apply to, or bounds that are none, are let pass. -/
  lenient : Bool
  /-- Whether a closing parenthesis without an opening one stands for itself. -/
  closesAlone : Bool
  /-- Whether a set that looks like the name of a class is refused. -/
  wary : Bool
deriving DecidableEq, Repr

namespace Form

/-- What `expr` takes. -/
def basic : Form := ⟨false, true, false, false⟩

/-- What `grep` takes. -/
def soughtBasic : Form := ⟨false, true, false, true⟩

def soughtExtended : Form := ⟨true, true, true, true⟩

/-- What `sed` takes. -/
def editing (extended : Bool) : Form := ⟨extended, false, false, true⟩

/-- What the shell takes. -/
def asked : Form := ⟨true, false, true, false⟩

end Form

/-- What is left to read, how many groups were opened, which of them are closed, and how many are open. -/
structure Rest where
  chars : Text
  groups : Nat
  closed : List Nat
  depth : Nat

abbrev Reader := StateT Rest Option

/-- The character itself. -/
def char (c : Char) : Regex := oneOf false [.range c c]

/-- Whether characters come next; they are taken if they do. -/
def eats (text : String) : Reader Bool := do
  let r ← get
  if text.toList.isPrefixOf r.chars then
    set { r with chars := r.chars.drop text.length }
    return true
  else return false

def peeks (text : String) : Reader Bool := return text.toList.isPrefixOf (← get).chars

def drop (n : Nat) : Reader Unit := modify fun r => { r with chars := r.chars.drop n }

def isLineStart : Regex → Bool
  | lineStart => true
  | _ => false

/-- Whether an expression matches a place and no characters. -/
def isPlace : Regex → Bool
  | lineStart | lineEnd | textStart | textEnd | wordStart | wordEnd | wordEdge | noWordEdge => true
  | _ => false

/-- How a form writes an operator. -/
def Form.write (f : Form) (operator : String) : String := if f.extended then operator else "\\" ++ operator

/-- A set in brackets, after the opening one. -/
def bracket (f : Form) : Reader Regex := do
  let negated ← eats "^"
  let r ← get
  match Pattern.setItems true (r.chars.length + 1) false (r.chars.map (⟨·, false⟩)) with
  | none => failure
  | some (items, rest) =>
    let colon : SetItem := .range ':' ':'
    let named := items.head? = some colon && items.getLast? = some colon && items.any (· ≠ colon)
    let isRange : SetItem → Bool := fun
      | .range _ _ => true
      | .kind _ => false
    let allowed (i : SetItem) : Bool := i.isSound || (isRange i && !f.wary && !f.extended)
    if items.any (!allowed ·) || (f.wary && named) then failure
    set { r with chars := rest.map Pattern.Mark.char }
    return oneOf negated items

/-- The greatest number of repetitions. -/
def mostTimes : Nat := 32767

/-- The bounds of a repetition, after the opening brace. -/
def bounds? (f : Form) (t : Text) : Option ((Nat × Option Nat) × Text) :=
  let least := t.takeWhile Char.isDigit
  let t := t.drop least.length
  let comma := t.head? = some ','
  let t := if comma then t.drop 1 else t
  let most := if comma then t.takeWhile Char.isDigit else []
  let t := t.drop most.length
  let closing := (f.write "\x7d").toList
  let low := Text.number least
  let high := if !comma then some low else if most.isEmpty then none else some (Text.number most)
  if !closing.isPrefixOf t || (least.isEmpty && !comma) then none else some ((low, high), t.drop closing.length)

/-- What a letter after a backslash stands for. -/
def escape? (c : Char) : Option Regex :=
  let word : List SetItem := [.kind "alnum", .range '_' '_']
  match c with
  | 'w' => some (oneOf false word)
  | 'W' => some (oneOf true word)
  | 's' => some (oneOf false [.kind "space"])
  | 'S' => some (oneOf true [.kind "space"])
  | 'b' => some wordEdge
  | 'B' => some noWordEdge
  | '<' => some wordStart
  | '>' => some wordEnd
  | '\x60' => some textStart
  | '\'' => some textEnd
  | _ => none

mutual

/-- Alternatives. -/
def alternatives (f : Form) : Nat → Reader Regex
  | 0 => failure
  | n + 1 => do
    let first ← branch f n empty true
    if ← eats (f.write "|") then return either first (← alternatives f n)
    else return first

/-- Expressions one after the other; `first` says whether nothing came before. -/
def branch (f : Form) : Nat → Regex → Bool → Reader Regex
  | 0, _, _ => failure
  | n + 1, before, first => do
    let closes := (← peeks (f.write ")"))
    if (← get).chars.isEmpty || (← peeks (f.write "|")) || (closes && !(f.closesAlone && (← get).depth = 0)) then
      return before
    else
      let piece ← atom f n first
      let piece ← repeated f n piece
      let joined := match before with
        | .empty => piece
        | _ => seq before piece
      branch f n joined (piece.isLineStart || (piece.isPlace && !f.lenient))

/-- The repetitions of an expression. -/
def repeated (f : Form) : Nat → Regex → Reader Regex
  | 0, _ => failure
  | n + 1, body => do
    let again (least : Nat) (most : Option Nat) : Reader Regex := do
      let twice := (← peeks "*") || (← peeks "\\\x7b")
      if !f.extended && !f.lenient && twice then failure
      repeated f n (times least most body)
    let r ← get
    if body.isLineStart || (body.isPlace && !f.lenient) then return body
    else if ← eats "*" then again 0 none
    else if ← eats (f.write "+") then repeated f n (times 1 none body)
    else if ← eats (f.write "?") then repeated f n (times 0 (some 1) body)
    else if ← eats (f.write "\x7b") then
      match bounds? f (← get).chars with
      | none =>
        if !(f.extended && f.lenient) then failure
        set r
        return body
      | some ((least, most), rest) =>
        if most.any (· < least) || max least (most.getD 0) > mostTimes then failure
        modify fun r => { r with chars := rest }
        again least most
    else return body

/-- An expression without operators behind it. -/
def atom (f : Form) : Nat → Bool → Reader Regex
  | 0, _ => failure
  | n + 1, first => do
    if ← eats (f.write "(") then
      let number := (← get).groups + 1
      modify fun r => { r with groups := number, depth := r.depth + 1 }
      let body ← alternatives f n
      if !(← eats (f.write ")")) then failure
      modify fun r => { r with closed := number :: r.closed, depth := r.depth - 1 }
      return group number body
    else if first && f.extended && (← get).chars.head?.any "*+?\x7b".toList.contains then
      if !f.lenient then failure
      drop 1
      return empty
    else
      match (← get).chars with
      | '\\' :: c :: _ =>
        drop 2
        if c.isDigit && c ≠ '0' then
          let number := c.toNat - '0'.toNat
          if !(← get).closed.contains number then failure
          return again number
        else if first && c = '\x7b' && !f.extended && !f.lenient then failure
        else return (escape? c).getD (char c)
      | ['\\'] => failure
      | '[' :: _ =>
        drop 1
        bracket f
      | '.' :: _ =>
        drop 1
        return any
      | '^' :: _ =>
        drop 1
        return if first || f.extended then lineStart else char '^'
      | '$' :: _ =>
        drop 1
        let ends := (← get).chars.isEmpty || (← peeks (f.write ")")) || (← peeks (f.write "|"))
        return if ends || f.extended then lineEnd else char '$'
      | c :: _ =>
        drop 1
        return char c
      | [] => failure

end

/-- Reads an expression; `none` if it is none. -/
def read? (f : Form) (t : Text) : Option Regex :=
  match (alternatives f (4 * t.length + 16)).run ⟨t, 0, [], 0⟩ with
  | some (r, rest) => if rest.chars.isEmpty then some r else none
  | none => none

/-- The expression that matches a text itself. -/
def literal (t : Text) : Regex := t.foldr (fun c r => seq (char c) r) empty

end Regex

end StubRelease.Shell
