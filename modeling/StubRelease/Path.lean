/-
# StubRelease.Path -- paths as text

A path is a text that is never normalised: joining keeps `.`, `..` and repeated slashes as they were
written. Its *components* forget the spelling (repeated slashes, inner `.`, a trailing slash), and two
paths are the same place by spelling when their components agree. Main statements: an absolute path
absorbs whatever it is joined to, and resolving a path against an absolute directory twice is resolving
it once.
-/
import StubRelease.Bytes

namespace StubRelease

/-- A path as it was written. -/
structure Path where
  text : String
deriving DecidableEq, Repr, Inhabited

namespace Path

/-- A path that starts at the root directory. -/
def isAbsolute (p : Path) : Bool := p.text.toList.head? == some '/'

/-- Whether a name put after `p` needs a slash in between. -/
def needsSlash (p : Path) : Bool :=
  match p.text.toList.getLast? with
  | none => false
  | some c => c != '/'

/-- `q` seen from the directory `p`; an absolute `q` stands for itself. -/
def join (p q : Path) : Path :=
  if q.isAbsolute then q
  else if p.needsSlash then ⟨p.text ++ "/" ++ q.text⟩
  else ⟨p.text ++ q.text⟩

/-- `p / "name"` is the entry `name` of the directory `p`. -/
instance : HDiv Path String Path := ⟨fun p name => p.join ⟨name⟩⟩

theorem div_eq (p : Path) (name : String) : p / name = p.join ⟨name⟩ := rfl

/-- The bytes of a path. -/
def bytes (p : Path) : Bytes := Bytes.ofString p.text

theorem join_of_isAbsolute {p q : Path} (h : q.isAbsolute = true) : p.join q = q := by
  simp [join, h]

theorem isAbsolute_of_head {p : Path} {cs : List Char} (h : p.text.toList = '/' :: cs) :
    p.isAbsolute = true := by
  simp [isAbsolute, h]

/-- What is joined to an absolute path is absolute. -/
theorem isAbsolute_join {p : Path} (q : Path) (h : p.isAbsolute = true) :
    (p.join q).isAbsolute = true := by
  unfold join
  split
  · assumption
  · have hp : p.text.toList.head? = some '/' := by simpa [isAbsolute] using h
    obtain ⟨cs, hcs⟩ : ∃ cs, p.text.toList = '/' :: cs := by
      cases hl : p.text.toList with
      | nil => simp [hl] at hp
      | cons c cs => simp [hl] at hp; exact ⟨cs, by rw [hp]⟩
    split
    · exact isAbsolute_of_head (by simp [String.toList_append, hcs]; rfl)
    · exact isAbsolute_of_head (by simp [String.toList_append, hcs]; rfl)

/-- Resolving is stable: a path resolved against an absolute directory stays what it is. -/
theorem join_join_of_isAbsolute {p : Path} (q r : Path) (h : p.isAbsolute = true) :
    r.join (p.join q) = p.join q :=
  join_of_isAbsolute (isAbsolute_join q h)

/-! ## Components -/

/-- Cuts a list at every element that satisfies `sep`; there is always one piece more than cuts. -/
def pieces {α : Type} (sep : α → Bool) : List α → List (List α)
  | [] => [[]]
  | a :: rest =>
    if sep a then [] :: pieces sep rest
    else match pieces sep rest with
      | [] => [[a]]
      | piece :: more => (a :: piece) :: more

theorem pieces_ne_nil {α : Type} (sep : α → Bool) (as : List α) : pieces sep as ≠ [] := by
  cases as with
  | nil => simp [pieces]
  | cons a rest =>
    rw [pieces]
    split
    · simp
    · split <;> simp

/-- The pieces of two lists with a cut in between are the pieces of both. -/
theorem pieces_append_cons {α : Type} {sep : α → Bool} {s : α} (hs : sep s = true)
    (as bs : List α) : pieces sep (as ++ s :: bs) = pieces sep as ++ pieces sep bs := by
  induction as with
  | nil => simp [pieces, hs]
  | cons a rest ih =>
    by_cases ha : sep a = true
    · simp [pieces, ha, ih]
    · simp only [List.cons_append, pieces, ha, ih]
      cases h : pieces sep rest with
      | nil => exact absurd h (pieces_ne_nil sep rest)
      | cons p more => simp

/-- One step of a path. -/
inductive Component where
  | root
  | here
  | up
  | name (text : String)
deriving DecidableEq, Repr

/-- The component a piece between slashes stands for. Nothing stands for an empty piece, nor for a
`.` that is not the first piece of a relative path. -/
def component? (leading : Bool) (piece : List Char) : Option Component :=
  match piece with
  | [] => none
  | ['.'] => if leading then some .here else none
  | ['.', '.'] => some .up
  | cs => some (.name (String.ofList cs))

/-- The steps of a path, spelling forgotten. -/
def components (p : Path) : List Component :=
  match pieces (· == '/') p.text.toList with
  | [] => []
  | first :: rest =>
    let start := if p.isAbsolute then [Component.root] else (component? true first).toList
    start ++ rest.filterMap (component? false)

/-- Two spellings of one path. -/
def sameAs (p q : Path) : Bool := p.components == q.components

/-- The name a byte path ends in, if it ends in one: empty pieces and `.` are passed over, `..` is no
name. -/
def lastName? (bs : Bytes) : Option Bytes :=
  let dot := Bytes.ofChar '.'
  match ((pieces (· == Bytes.ofChar '/') bs).filter fun piece => piece ≠ [] ∧ piece ≠ [dot]).getLast? with
  | some piece => if piece = [dot, dot] then none else some piece
  | none => none

/-- The name a path ends in, if it ends in one. -/
def fileName? (p : Path) : Option String := (lastName? p.bytes).bind Bytes.toString?

end Path

end StubRelease
