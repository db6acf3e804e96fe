/-
# StubRelease.Shell.Braces -- words with alternatives

Braces in a word stand for several words: one for every alternative between commas, or one for every value
of a sequence. Braces without commas and without a sequence stand for themselves.
-/
import StubRelease.Shell.Script

namespace StubRelease.Shell.Word

/-- Whether a part is an unquoted character. -/
def isChar (c : Char) : Part → Bool
  | .text t false => t = [c]
  | _ => false

/-- The alternatives up to the closing brace, and what follows it. `depth` counts open braces, `current`
is what was read of the current alternative. -/
def alternatives (depth : Nat) (finished : List Word) (current : Word) : List Part → Option (List Word × Word)
  | [] => none
  | p :: rest =>
    if isChar '\x7b' p then alternatives (depth + 1) finished (current ++ [p]) rest
    else if isChar '\x7d' p then
      match depth with
      | 0 => some (finished ++ [current], rest)
      | d + 1 => alternatives d finished (current ++ [p]) rest
    else if isChar ',' p && depth = 0 then alternatives 0 (finished ++ [current]) [] rest
    else alternatives depth finished (current ++ [p]) rest

/-- The parts between two dots. -/
def betweenDots : Text → List Text
  | '.' :: '.' :: rest => [] :: betweenDots rest
  | c :: rest =>
    match betweenDots rest with
    | [] => [[c]]
    | part :: parts => (c :: part) :: parts
  | [] => [[]]

/-- The values from one number to another. -/
def stepping (first last step : Int) : List Int :=
  let size := step.natAbs
  let count := (last - first).natAbs / max 1 size
  let signed : Int := if first ≤ last then max 1 size else -(max 1 size : Nat)
  (List.range (count + 1)).map fun (i : Nat) => first + signed * i

/-- The values of a sequence of numbers or of letters. -/
def sequence? (t : Text) : Option (List Text) :=
  let between (first last : Text) (step : Int) : Option (List Text) :=
    match Text.toInt? first, Text.toInt? last, first, last with
    | some m, some n, _, _ =>
      let isPadded (t : Text) : Bool := t.length > 1 && (t.head? = some '0' || "-0".toList.isPrefixOf t)
      let width := if isPadded first || isPadded last then max first.length last.length else 0
      some ((stepping m n step).map fun value =>
        let shown := Text.ofInt value
        match shown with
        | '-' :: digits => '-' :: (List.replicate (width - shown.length) '0' ++ digits)
        | digits => List.replicate (width - shown.length) '0' ++ digits)
    | _, _, [c], [d] =>
      if c.isAlpha && d.isAlpha then
        some ((stepping c.toNat d.toNat step).map fun value => [Char.ofNat value.toNat])
      else none
    | _, _, _, _ => none
  match betweenDots t with
  | [first, last] => between first last 1
  | [first, last, step] => (Text.toInt? step).bind (between first last)
  | _ => none

/-- The words a word with braces stands for. The number bounds the steps. -/
def withBraces : Nat → Word → List Word
  | 0, word => [word]
  | _, [] => [[]]
  | n + 1, p :: rest =>
    let plain := (withBraces n rest).map (p :: ·)
    if isChar '\x7b' p then
      match alternatives 0 [] [] rest with
      | none => plain
      | some ([only], after) =>
        match (plain? only).bind sequence? with
        | some values =>
          let ends := withBraces n after
          values.flatMap fun value => ends.map (Part.text value false :: ·)
        | none => plain
      | some (choices, after) =>
        let ends := withBraces n after
        (choices.flatMap (withBraces n)).flatMap fun start => ends.map (start ++ ·)
    else plain

end StubRelease.Shell.Word
