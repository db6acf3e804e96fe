/-
# StubRelease.Shell.Difference -- how two lists of lines differ

Some lines of either list are marked as changed, so that the other lines of both are the same. As few as can be are
marked, save lines that the other list does not have, which are marked beforehand: the middle of a shortest way from
one list to the other is looked for from both ends, and the lists are cut there. Runs of marked lines are then moved
as far down as they go.
-/
import StubRelease.Shell.Text

namespace StubRelease.Shell

namespace Difference

/-! ## The middle of a way

A way from one list to the other takes lines off the first one, puts lines of the second one in, and keeps those that
both have. The places in the two lists that have the same distance are on one diagonal. -/

/-- How far ways come on each diagonal of a range of them. -/
structure Front where
  reach : Array Int
  /-- What is added to a diagonal's number to find it. -/
  origin : Int
  low : Int
  high : Int

namespace Front

/-- How far ways come on a diagonal. -/
def at' (f : Front) (diagonal : Int) : Int := f.reach.getD (diagonal + f.origin).toNat 0

def put (f : Front) (diagonal place : Int) : Front :=
  { f with reach := f.reach.setIfInBounds (diagonal + f.origin).toNat place }

/-- A front with a diagonal more at either end, or with one less where there are no more; ways come to `edge`
outside. -/
def widened (f : Front) (least most edge : Int) : Front :=
  let f := if f.low > least then { f.put (f.low - 2) edge with low := f.low - 1 } else { f with low := f.low + 1 }
  if f.high < most then { f.put (f.high + 2) edge with high := f.high + 1 } else { f with high := f.high - 1 }

end Front

/-- Two lists, and the parts of them that are compared. -/
structure Span where
  xs : Array Text
  ys : Array Text
  xLow : Nat
  xHigh : Nat
  yLow : Nat
  yHigh : Nat

namespace Span

/-- Whether two lines are the same. -/
def same (s : Span) (x y : Int) : Bool := s.xs.getD x.toNat [] = s.ys.getD y.toNat []

/-- Where lines that are the same come to an end, from two places on. The number bounds how many they are. -/
def forwards (s : Span) : Nat → Int → Int → Int
  | 0, x, _ => x
  | n + 1, x, y => if x < s.xHigh && y < s.yHigh && s.same x y then forwards s n (x + 1) (y + 1) else x

/-- Where lines that are the same begin, back from two places. -/
def backwards (s : Span) : Nat → Int → Int → Int
  | 0, x, _ => x
  | n + 1, x, y =>
    if s.xLow < x && s.yLow < y && s.same (x - 1) (y - 1) then backwards s n (x - 1) (y - 1) else x

def size (s : Span) : Nat := s.xHigh - s.xLow + (s.yHigh - s.yLow)

/-- Takes the ways from the beginning one step further on each diagonal, down from one. They end where they meet the
ways from the other end, if they do so after such a step. -/
def stepOn (s : Span) (meets : Bool) (other : Front) : Nat → Int → Front → (Int × Int) ⊕ Front
  | 0, _, f => .inr f
  | n + 1, d, f =>
    if d < f.low then .inr f
    else
      let below := f.at' (d - 1)
      let above := f.at' (d + 1)
      let start := if below < above then above else below + 1
      let x := s.forwards s.size start (start - d)
      let f := f.put d x
      if meets && other.low ≤ d && d ≤ other.high && other.at' d ≤ x then .inl (x, x - d)
      else stepOn s meets other n (d - 2) f

/-- Takes the ways from the end one step back on each diagonal. -/
def stepBack (s : Span) (meets : Bool) (other : Front) : Nat → Int → Front → (Int × Int) ⊕ Front
  | 0, _, f => .inr f
  | n + 1, d, f =>
    if d < f.low then .inr f
    else
      let below := f.at' (d - 1)
      let above := f.at' (d + 1)
      let start := if below < above then below else above - 1
      let x := s.backwards s.size start (start - d)
      let f := f.put d x
      if meets && other.low ≤ d && d ≤ other.high && x ≤ other.at' d then .inl (x, x - d)
      else stepBack s meets other n (d - 2) f

/-- Takes steps from both ends in turn until ways meet. -/
def meeting? (s : Span) (odd : Bool) : Nat → Front → Front → Option (Int × Int)
  | 0, _, _ => none
  | n + 1, top, bottom =>
    let least := (s.xLow : Int) - s.yHigh
    let most := (s.xHigh : Int) - s.yLow
    let top := top.widened least most (-1)
    match s.stepOn odd bottom (s.size + 2) top.high top with
    | .inl found => some found
    | .inr top =>
      let bottom := bottom.widened least most (s.xs.size + s.ys.size + 1)
      match s.stepBack (!odd) top (s.size + 2) bottom.high bottom with
      | .inl found => some found
      | .inr bottom => meeting? s odd n top bottom

/-- A place that a shortest way comes through in its middle. -/
def middle? (s : Span) : Option (Int × Int) :=
  let origin : Int := s.yHigh + 2
  let blank : Array Int := Array.replicate (s.xHigh + s.yHigh + 6) 0
  let first : Int := (s.xLow : Int) - s.yLow
  let last : Int := (s.xHigh : Int) - s.yHigh
  let top := (Front.mk blank origin first first).put first s.xLow
  let bottom := (Front.mk blank origin last last).put last s.xHigh
  s.meeting? ((first - last) % 2 ≠ 0) (s.size + 1) top bottom

/-- A part without the lines at its ends that are the same. -/
def trimmed (s : Span) : Span :=
  let start := (s.forwards s.size s.xLow s.yLow - s.xLow).toNat
  let s := { s with xLow := s.xLow + start, yLow := s.yLow + start }
  let stop := (s.xHigh - s.backwards s.size s.xHigh s.yHigh).toNat
  { s with xHigh := s.xHigh - stop, yHigh := s.yHigh - stop }

/-- The places of the lines that a shortest way takes off and puts in. The number bounds how often the lists are cut. -/
def changes : Nat → Span → List Nat × List Nat
  | 0, s => (List.range' s.xLow (s.xHigh - s.xLow), List.range' s.yLow (s.yHigh - s.yLow))
  | n + 1, s =>
    let s := s.trimmed
    let all := (List.range' s.xLow (s.xHigh - s.xLow), List.range' s.yLow (s.yHigh - s.yLow))
    if s.xLow = s.xHigh || s.yLow = s.yHigh then all
    else
      match s.middle? with
      | none => all
      | some (x, y) =>
        let (taken, put) := changes n { s with xHigh := x.toNat, yHigh := y.toNat }
        let (taken', put') := changes n { s with xLow := x.toNat, yLow := y.toNat }
        (taken ++ taken', put ++ put')

end Span

/-! ## Lines that tell little -/

/-- What is thought of a line beforehand. -/
inductive Worth where
  | useful
  /-- The other list does not have it. -/
  | foreign
  /-- The other list has it very often. -/
  | common
deriving DecidableEq

/-- Half of the binary digits of a number, as a power of two. -/
def rootOf (n : Nat) : Nat := Nat.pow 2 ((Nat.log2 n) / 2)

/-- What is thought of each line of a list, if the other one is given. -/
def worths (xs ys : List Text) : List Worth :=
  let many := 5 * rootOf (xs.length / 64)
  xs.map fun x =>
    let n := ys.count x
    if n = 0 then .foreign else if many < n then .common else .useful

/-- Lines of a run from its front on, of which common ones are useful after all up to three foreign ones in a row, or
up to a foreign one behind eight others. -/
def frontSpared : Nat → Nat → List Worth → List Worth
  | _, _, [] => []
  | before, inRow, w :: rest =>
    if before ≥ 8 && w = .foreign then w :: rest
    else
      match w with
      | .common => .useful :: frontSpared (before + 1) 0 rest
      | .useful => .useful :: frontSpared (before + 1) 0 rest
      | .foreign => if inRow = 2 then w :: rest else .foreign :: frontSpared (before + 1) (inRow + 1) rest

/-- Lines of a run, of which common ones are useful after all where a number of them follow each other. -/
def rowsSpared (least : Nat) : Nat → List Worth → List Worth
  | 0, ws => ws
  | _, [] => []
  | n + 1, w :: rest =>
    let row := (w :: rest).takeWhile (· = .common)
    if row.isEmpty then w :: rowsSpared least n rest
    else
      (if least ≤ row.length then List.replicate row.length .useful else row)
        ++ rowsSpared least n ((w :: rest).drop row.length)

/-- A run of lines that begins and ends with foreign ones. Common ones in it are useful after all if they are many, or
stand close to each other or to the ends of the run. -/
def runSpared (run : List Worth) : List Worth :=
  let usefulIfCommon (w : Worth) : Worth := if w = .common then .useful else w
  if run.length < 4 * run.count .common then run.map usefulIfCommon
  else
    let spared := rowsSpared (rootOf (run.length / 4) + 1) run.length run
    let spared := frontSpared 0 0 spared
    (frontSpared 0 0 spared.reverse).reverse

/-- Lines of a list, of which common ones are useful after all unless they stand between foreign ones. -/
def spared : Nat → List Worth → List Worth
  | 0, ws => ws
  | _, [] => []
  | n + 1, .foreign :: rest =>
    let run := .foreign :: rest.takeWhile (· ≠ .useful)
    let inner := (run.reverse.dropWhile (· = .common)).reverse
    runSpared inner ++ spared n ((.foreign :: rest).drop inner.length)
  | n + 1, _ :: rest => .useful :: spared n rest

/-! ## Moving runs -/

/-- The marks of two lists of lines, the lines of the first one, and a run of its marked lines. -/
structure Moving where
  lines : Array Text
  own : Array Bool
  other : Array Bool
  /-- Where the run begins. -/
  start : Nat
  /-- Where it ends. -/
  stop : Nat
  /-- The place in the other list that answers to its end. -/
  across : Int

namespace Moving

def isMarked (m : Moving) (i : Nat) : Bool := m.own.getD i false

def isMarkedAcross (m : Moving) (j : Int) : Bool := 0 ≤ j && m.other.getD j.toNat false

def mark (m : Moving) (i : Nat) (marked : Bool) : Moving := { m with own := m.own.setIfInBounds i marked }

/-- Whether two lines are the same. -/
def same (m : Moving) (i j : Nat) : Bool := m.lines.getD i [] = m.lines.getD j []

/-- The end of the run and its answer, where they have marked lines behind them. -/
def extended : Nat → Moving → Moving
  | 0, m => m
  | n + 1, m => if m.isMarked m.stop then extended n { m with stop := m.stop + 1 } else m

/-- The answer to the end, passing over marked lines. -/
def acrossOn : Nat → Moving → Moving
  | 0, m => m
  | n + 1, m => if m.isMarkedAcross m.across then acrossOn n { m with across := m.across + 1 } else m

/-- The answer to the end, going back over marked lines. -/
def acrossBack : Nat → Moving → Moving
  | 0, m => m
  | n + 1, m => if m.isMarkedAcross m.across then acrossBack n { m with across := m.across - 1 } else m

/-- The beginning of the run, going back over marked lines. -/
def begun : Nat → Moving → Moving
  | 0, m => m
  | n + 1, m => if 0 < m.start && m.isMarked (m.start - 1) then begun n { m with start := m.start - 1 } else m

def size (m : Moving) : Nat := m.own.size + m.other.size + 1

/-- Moves the run up by a line. -/
def up (m : Moving) : Moving :=
  { (m.mark (m.start - 1) true).mark (m.stop - 1) false with
    start := m.start - 1, stop := m.stop - 1, across := m.across - 1 }

/-- Moves the run up as long as the line before it is the same as its last one; it takes in runs that it comes to. -/
def upMost : Nat → Moving → Moving
  | 0, m => m
  | n + 1, m =>
    if 0 < m.start && m.same (m.start - 1) (m.stop - 1) then
      let m := m.up
      upMost n ((m.begun m.size).acrossBack m.size)
    else m

/-- Moves the run down as long as its first line is the same as the one after it; it takes in runs that it comes to.
Beside it the last end of the run that answers to a run in the other list is kept. -/
def downMost : Nat → Moving → Nat → Moving × Nat
  | 0, m, answered => (m, answered)
  | n + 1, m, answered =>
    if m.stop < m.lines.size && m.same m.start m.stop then
      let m := (m.mark m.start false).mark m.stop true
      let m := { m with start := m.start + 1, stop := m.stop + 1, across := m.across + 1 }
      let m := extended m.size m
      let crossed := acrossOn m.size m
      downMost n crossed (if crossed.across = m.across then answered else m.stop)
    else (m, answered)

/-- Moves the run up and then down until it grows no more. -/
def settled : Nat → Moving → Moving × Nat
  | 0, m => (m, m.stop)
  | n + 1, m =>
    let length := m.stop - m.start
    let m := upMost m.size m
    let answered := if m.isMarkedAcross (m.across - 1) then m.stop else m.lines.size
    let (m, answered) := downMost m.size m answered
    if m.stop - m.start = length then (m, answered) else settled n m

/-- Moves the run up to an end that answers to a run in the other list. -/
def backTo (answered : Nat) : Nat → Moving → Moving
  | 0, m => m
  | n + 1, m =>
    if answered < m.stop then
      let m := m.up
      backTo answered n (m.acrossBack m.size)
    else m

/-- The next place of the list that is marked, with its answer in the other list. -/
def next : Nat → Moving → Moving
  | 0, m => m
  | n + 1, m =>
    if m.stop < m.lines.size && !m.isMarked m.stop then
      let m := acrossOn m.size m
      next n { m with stop := m.stop + 1, across := m.across + 1 }
    else m

/-- Moves all runs of the list, one after the other. -/
def all : Nat → Moving → Array Bool
  | 0, m => m.own
  | n + 1, m =>
    let m := m.next m.size
    if m.lines.size ≤ m.stop then m.own
    else
      let m := { m with start := m.stop }
      let m := acrossOn m.size (extended m.size m)
      let (m, answered) := settled m.size m
      all n (backTo answered m.size m)

end Moving

/-- The marks of a list with its runs moved. -/
def moved (lines : List Text) (own other : List Bool) : List Bool :=
  let m : Moving := ⟨lines.toArray, own.toArray, other.toArray, 0, 0, 0⟩
  (m.all m.size).toList

/-! ## Marking -/

/-- The lines that are not marked. -/
def kept : List Text → List Bool → List Text
  | x :: xs, changed :: marks => if changed then kept xs marks else x :: kept xs marks
  | _, _ => []

/-- The marks of lines between what two lists have in common at their ends. -/
def marksBetween (xs ys : List Text) : List Bool × List Bool :=
  let chosen (xs ys : List Text) : List Bool := (spared xs.length (worths xs ys)).map (· = .useful)
  let usefulX := chosen xs ys
  let usefulY := chosen ys xs
  let left (lines : List Text) (useful : List Bool) : List Text := ((lines.zip useful).filter (·.2)).map (·.1)
  let us := (left xs usefulX).toArray
  let vs := (left ys usefulY).toArray
  let (taken, put) := Span.changes (us.size + vs.size + 1) ⟨us, vs, 0, us.size, 0, vs.size⟩
  let rec marks (changed : List Nat) : Nat → List Bool → List Bool
    | _, [] => []
    | i, true :: rest => changed.contains i :: marks changed (i + 1) rest
    | i, false :: rest => true :: marks changed i rest
  let first := marks taken 0 usefulX
  let second := marks put 0 usefulY
  let first := moved xs first second
  (first, moved ys second first)

/-- How many lines two lists have in common at their beginning. -/
def commonStart : List Text → List Text → Nat
  | x :: xs, y :: ys => if x = y then commonStart xs ys + 1 else 0
  | _, _ => 0

/-- The marks of two lists that differ; `horizon` lines of what they have in common at their ends are looked at,
too. -/
def marksOf (horizon : Nat) (xs ys : List Text) : List Bool × List Bool :=
  let start := commonStart xs ys - horizon
  let xs := xs.drop start
  let ys := ys.drop start
  let stop := commonStart xs.reverse ys.reverse - horizon
  let (first, second) := marksBetween (xs.take (xs.length - stop)) (ys.take (ys.length - stop))
  let around (marks : List Bool) : List Bool := List.replicate start false ++ marks ++ List.replicate stop false
  (around first, around second)

/-- Which lines of two lists are changed. -/
def marks (horizon : Nat) (xs ys : List Text) : List Bool × List Bool :=
  if xs = ys then (xs.map fun _ => false, ys.map fun _ => false)
  else if kept xs (marksOf horizon xs ys).1 = kept ys (marksOf horizon xs ys).2 then marksOf horizon xs ys
  else (xs.map fun _ => true, ys.map fun _ => true)

end Difference

end StubRelease.Shell
