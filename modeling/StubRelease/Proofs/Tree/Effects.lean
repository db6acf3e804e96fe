/-
# StubRelease.Proofs.Tree.Effects -- what an operation leaves alone

A file operation on an entry is seen at that entry and below it only, and keeps the tree plain, whether it
succeeds or is refused. The entry is the one its path spells from the current directory: in a tree without
links a path leads there or nowhere, so nothing has to be known about where the path leads.
-/
import StubRelease.Proofs.Tree.Growth

namespace StubRelease

open Sequence

/-! ## What a step alters -/

namespace Store

/-- A step stays in its current directory, keeps the tree plain, and is seen to change some of the places
in `P` only. -/
structure AltersIn (P : List Name → Prop) (s t : Store) : Prop where
  cwd : t.cwd = s.cwd
  changes : s.top.ChangesIn P t.top

namespace AltersIn

variable {P Q : List Name → Prop} {s t u : Store}

theorem plain (h : AltersIn P s t) : t.top.Plain := h.changes.plain

theorem look (h : AltersIn P s t) {p : List Name} (hp : ¬ P p) : t.top.look p = s.top.look p :=
  h.changes.look p hp

theorem refl (hs : s.top.Plain) : AltersIn P s s := ⟨rfl, .refl hs⟩

theorem trans (h : AltersIn P s t) (h' : AltersIn P t u) : AltersIn P s u :=
  ⟨h'.cwd.trans h.cwd, h.changes.trans h'.changes⟩

theorem mono (hPQ : ∀ p, P p → Q p) (h : AltersIn P s t) : AltersIn Q s t :=
  ⟨h.cwd, h.changes.mono hPQ⟩

/-- What a path spells is not altered. -/
theorem spelled (h : AltersIn P s t) (p : Path) : t.spelled p = s.spelled p := spelled_congr h.cwd p

end AltersIn

/-- A step alters some of the places in `P`, and besides adds something at some of the places in `Q`, where
nothing stood. -/
def AddsIn (P Q : List Name → Prop) (s t : Store) : Prop :=
  s.AltersIn (fun p => P p ∨ Q p ∧ s.top.look p = none) t

namespace AddsIn

variable {P P' Q Q' : List Name → Prop} {s t u : Store}

theorem of_alters (h : s.AltersIn P t) : s.AddsIn P Q t := h.mono fun _ => .inl

theorem refl (hs : s.top.Plain) : s.AddsIn P Q s := .of_alters (.refl hs)

theorem mono (hP : ∀ p, P p → P' p) (hQ : ∀ p, Q p → Q' p) (h : s.AddsIn P Q t) : s.AddsIn P' Q' t :=
  AltersIn.mono (fun p => Or.imp (hP p) (And.imp_left (hQ p))) h

theorem alters {R : List Name → Prop} (hP : ∀ p, P p → R p) (hQ : ∀ p, Q p → R p) (h : s.AddsIn P Q t) :
    s.AltersIn R t :=
  AltersIn.mono (fun p => fun
    | .inl hp => hP p hp
    | .inr hp => hQ p hp.1) h

/-- What stood outside the altered places stays. -/
theorem look_eq (h : s.AddsIn P Q t) {p : List Name} (hp : ¬ P p) (hstood : s.top.look p ≠ none) :
    t.top.look p = s.top.look p :=
  AltersIn.look h fun h => h.elim hp fun h => hstood h.2

theorem trans (h : s.AddsIn P Q t) (h' : t.AddsIn P Q u) : s.AddsIn P Q u := by
  refine ⟨h'.cwd.trans h.cwd, h'.plain, fun p hp => ?_⟩
  have hfirst : t.top.look p = s.top.look p := h.look hp
  rw [← hfirst]
  refine h'.look fun hlater => hp (hlater.imp_right fun hq => ⟨hq.1, ?_⟩)
  rw [← hfirst, hq.2]

end AddsIn

end Store

/-! ## One step after the other -/

namespace Sequence

variable {ε α β : Type} {P Q : List Name → Prop} {s : Store}

/-- A sequence alters what its steps alter, the second one if it comes to that. -/
theorem alters_bind {x : ExceptT ε (StateM Store) α} {f : α → ExceptT ε (StateM Store) β}
    (hx : s.AltersIn P (x s).2)
    (hf : ∀ a t, x s = (.ok a, t) → s.AltersIn P t → t.AltersIn P (f a t).2) :
    s.AltersIn P ((x >>= f) s).2 :=
  relates_bind (R := Store.AltersIn P) .trans hx hf

theorem require_store (condition : Store → Bool) (otherwise : Failure) :
    (Work.require condition otherwise s).2 = s := by
  rw [require_eq]

theorem ofFiles_store (op : Files α) : (Work.ofFiles op s).2 = (op s).2 := by
  rw [ofFiles_eq]

end Sequence

/-! ## File operations -/

namespace Files

variable {s : Store} {p q : Path} {text other : String} (hs : s.top.Plain)
  (hname : IsName (Bytes.ofString text))

include hs hname

/-- Where the directory above exists, making directories adds one at most. -/
theorem makeDirs_adds {P : List Name → Prop} {d : List Name} (h : s.Reaches p d)
    (hshort : (Bytes.ofString text).length ≤ Route.nameLimit) :
    s.AddsIn P (· = d ++ [Bytes.ofString text]) (makeDirs (p / text).bytes s).2 := by
  by_cases hread : ∃ r, Route.read (p / text).bytes = .ok r
  · obtain ⟨r, hread⟩ := hread
    obtain ⟨hnul, hfits, -⟩ := Store.read_div_eq_ok hname hread
    rw [makeDirs_of_finds hname ⟨h, hnul, hfits⟩ hshort fun target => hs.linkFree _ target]
    split
    · rename_i hnone
      refine ⟨rfl, (Node.ChangesIn.put_here hs hname .emptyDir h.dir (by simp [hnone]) fun _ _ => rfl).mono ?_⟩
      rintro place rfl
      exact .inr ⟨rfl, hnone⟩
    · exact .refl hs
    · exact .refl hs
  · rw [makeDirs, if_neg (Path.bytes_div_ne_nil hname), run_bind, ask_eq]
    cases hroute : Route.read (p / text).bytes with
    | ok r => exact absurd ⟨r, hroute⟩ hread
    | error fault => exact .refl hs

theorem copyFile_alters (source : Bytes) :
    s.AltersIn (· = s.spelled p ++ [Bytes.ofString text]) (copyFile source (p / text).bytes s).2 := by
  obtain ⟨fault, hfault⟩ | ⟨d, h, -, hdir, content, executable, hcopy⟩ :=
    copyFile_finds (p := p) source hs.linkFree hname
  · rw [hfault]
    exact .refl hs
  · obtain rfl := h.reaches.eq_spelled hs.linkFree
    rw [hcopy]
    exact ⟨rfl, .put_here hs hname (.file _ _) h.reaches.dir hdir fun _ _ => rfl⟩

theorem removeDir_alters :
    s.AltersIn (· = s.spelled p ++ [Bytes.ofString text]) (removeDir (p / text).bytes s).2 := by
  obtain ⟨fault, hfault⟩ | ⟨d, h, hshort, hempty⟩ := removeDir_finds (s := s) (p := p) hname
  · rw [hfault]
    exact .refl hs
  · obtain rfl := h.reaches.eq_spelled hs.linkFree
    rw [removeDir_of_finds hname h hshort hempty]
    refine ⟨rfl, .drop_here hs fun first rest => ?_⟩
    rw [Node.look_append, hempty]
    rfl

end Files

end StubRelease
