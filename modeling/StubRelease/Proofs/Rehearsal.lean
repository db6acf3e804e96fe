/-
# StubRelease.Proofs.Rehearsal -- a rehearsed executor detects every deviation

Calls are made on a rehearsed executor one after the other, whatever each of them results in. Each call takes one
expectation away, also when it is not the expected one, so that the expectation in a call's own place is always
the one it is judged by (`Judged`): an earlier deviation does not move the later ones. Main statement: the calls
made are exactly the expected ones, in order, if and only if no call was answered with a mismatch and no
expectation is left (`rehearsal_detects_deviation`).
-/
import Mathlib.Data.List.Forall2
import StubRelease.Tool.Rehearsed

namespace StubRelease

variable {σ : Type}

/-! ## Calls one after the other -/

/-- The session after some calls, made one after the other, whatever each of them results in. -/
def Session.afterCalls (e : Executor σ) (s : Session σ) (calls : List Call) : Session σ :=
  calls.foldl (fun s c => (Run.call e c s).2) s

theorem Session.calls_afterCalls (e : Executor σ) (s : Session σ) (calls : List Call) :
    (s.afterCalls e calls).history.map (·.call) = s.history.map (·.call) ++ calls := by
  induction calls generalizing s with
  | nil => exact (List.append_nil _).symm
  | cons c calls ih =>
    have hcalled : (Run.call e c s).2.history.map (·.call) = s.history.map (·.call) ++ [c] := List.map_append
    show ((Run.call e c s).2.afterCalls e calls).history.map (·.call) = _
    rw [ih, hcalled, List.append_assoc, List.singleton_append]

namespace Rehearsed

/-! ## Judging one call -/

/-- A call is the expected one: the same program, the same arguments, and a directory of the same components. -/
structure Meets (expected c : Call) : Prop where
  program : c.program = expected.program
  arguments : c.arguments = expected.arguments
  cwd : c.cwd.components = expected.cwd.components

theorem isExpected_iff {expected c : Call} : isExpected expected c = true ↔ Meets expected c := by
  simp only [isExpected, Path.sameAs, Bool.and_eq_true, beq_iff_eq]
  constructor
  · rintro ⟨⟨hprogram, harguments⟩, hcwd⟩
    exact ⟨hprogram.symm, harguments.symm, hcwd.symm⟩
  · rintro ⟨hprogram, harguments, hcwd⟩
    exact ⟨⟨hprogram.symm, harguments.symm⟩, hcwd.symm⟩

/-- The results that tell of a deviation. -/
def IsMismatch (result : Except Failure WaitStatus) : Prop := ∃ text, result = .error (.stubMismatch text)

/-- What a call is answered with, given the expectation in its place. -/
inductive Judged (c : Call) : Option Expectation → Except Failure WaitStatus → Prop
  | met {x : Expectation} (h : Meets x.call c) : Judged c (some x) x.result
  | missed {x : Expectation} (h : ¬ Meets x.call c) : Judged c (some x) (.error (mismatch x.call c))
  | surplus : Judged c none (.error (surplus c))

/-- A call is judged by the first expectation that is left. -/
theorem judged_answer (c : Call) (expected : List Expectation) : Judged c expected.head? (answer c expected).1 := by
  cases expected with
  | nil => exact .surplus
  | cons x rest =>
    show Judged c (some x) (if isExpected x.call c then x.result else .error (mismatch x.call c))
    split
    case isTrue h => exact .met (isExpected_iff.1 h)
    case isFalse h => exact .missed fun hmeets => h (isExpected_iff.2 hmeets)

/-- A call takes the first expectation away, be it met or not. -/
theorem left_answer (c : Call) (expected : List Expectation) : (answer c expected).2 = expected.tail := by
  cases expected <;> rfl

/-- A call is answered without a mismatch only if it is the expected one. -/
theorem Judged.met_of_not_mismatch {c : Call} {x? : Option Expectation} {result : Except Failure WaitStatus}
    (h : Judged c x? result) (hresult : ¬ IsMismatch result) : ∃ x, x? = some x ∧ Meets x.call c := by
  cases h with
  | met hmeets => exact ⟨_, rfl, hmeets⟩
  | missed _ => exact absurd ⟨_, rfl⟩ hresult
  | surplus => exact absurd ⟨_, rfl⟩ hresult

/-- The expected call is answered with the result of its expectation. -/
theorem Judged.result_eq {c : Call} {x : Expectation} {result : Except Failure WaitStatus}
    (h : Judged c (some x) result) (hmeets : Meets x.call c) : result = x.result := by
  cases h with
  | met _ => rfl
  | missed hnot => exact absurd hmeets hnot

/-! ## Judging call after call -/

/-- A session whose calls were judged by the expectations in their own places, and which has the others left. -/
structure Rehearsing (expected : List Expectation) (s : Session (List Expectation)) : Prop where
  judged : ∀ (k : Nat) (event : ToolEvent), s.history[k]? = some event →
    Judged event.call expected[k]? event.result
  left : s.tools = expected.drop s.history.length

namespace Rehearsing

variable {expected : List Expectation} {s : Session (List Expectation)}

theorem start (store : Store) (stderr : Sink) (shared : Bool) :
    Rehearsing expected (Session.start store expected stderr shared) where
  judged k event h := by cases h
  left := rfl

/-- One more call is judged by the expectation in its own place. -/
theorem call (h : Rehearsing expected s) (c : Call) : Rehearsing expected (Run.call executor c s).2 := by
  have hhead : s.tools.head? = expected[s.history.length]? := by rw [h.left, List.head?_drop]
  have htail : s.tools.tail = expected.drop (s.history.length + 1) := by rw [h.left, List.tail_drop]
  have hhistory : (Run.call executor c s).2.history = s.history ++ [⟨c, (answer c s.tools).1, s.store⟩] := rfl
  constructor
  · intro k event hevent
    rw [hhistory, List.getElem?_append] at hevent
    split at hevent
    case isTrue => exact h.judged k event hevent
    case isFalse hge =>
      rw [List.getElem?_singleton] at hevent
      split at hevent
      case isTrue hlast =>
        obtain rfl : k = s.history.length := by omega
        cases hevent
        exact hhead ▸ judged_answer c s.tools
      case isFalse => cases hevent
  · show (answer c s.tools).2 = _
    rw [left_answer, htail, hhistory, List.length_append, List.length_singleton]

theorem afterCalls (h : Rehearsing expected s) (calls : List Call) :
    Rehearsing expected (s.afterCalls executor calls) := by
  induction calls generalizing s with
  | nil => exact h
  | cons c calls ih => exact ih (h.call c)

/-- Once no expectation is left, the absence of mismatches tells that the calls were as many as expected, and each
of them the expected one. -/
theorem undisturbed_iff (h : Rehearsing expected s) (hown : ∀ x ∈ expected, ¬ IsMismatch x.result) :
    (∀ event ∈ s.history, ¬ IsMismatch event.result) ∧ s.tools = [] ↔
      List.Forall₂ (fun x event => Meets x.call event.call) expected s.history := by
  rw [h.left, List.drop_eq_nil_iff, List.forall₂_iff_get]
  constructor
  · rintro ⟨hresults, hle⟩
    have hmet (k : Nat) (hk : k < s.history.length) : ∃ x, expected[k]? = some x ∧ Meets x.call s.history[k].call :=
      (h.judged k _ (List.getElem?_eq_getElem hk)).met_of_not_mismatch (hresults _ (List.getElem_mem hk))
    have hge : s.history.length ≤ expected.length := by
      -- a call past the last expectation would have met none
      by_contra hlt
      obtain ⟨x, hx, -⟩ := hmet expected.length (Nat.lt_of_not_le hlt)
      rw [List.getElem?_eq_none (Nat.le_refl _)] at hx
      cases hx
    refine ⟨Nat.le_antisymm hle hge, fun k hk hk' => ?_⟩
    obtain ⟨x, hx, hmeets⟩ := hmet k hk'
    obtain ⟨_, rfl⟩ := List.getElem?_eq_some_iff.1 hx
    exact hmeets
  · rintro ⟨hlength, hmeets⟩
    refine ⟨fun event hevent => ?_, Nat.le_of_eq hlength⟩
    obtain ⟨k, hk, rfl⟩ := List.getElem_of_mem hevent
    have hk' : k < expected.length := hlength ▸ hk
    have hjudged := h.judged k _ (List.getElem?_eq_getElem hk)
    rw [List.getElem?_eq_getElem hk'] at hjudged
    rw [hjudged.result_eq (hmeets k hk' hk)]
    exact hown _ (List.getElem_mem hk')

end Rehearsing

/-- Main statement: whatever calls are made on a rehearsed executor, each of them is judged by the expectation in its
own place and answered as that one says, whatever the calls before it resulted in, and the expectations behind the
last call are left. If no expectation rehearses a mismatch itself, the calls are exactly the expected ones, in order,
if and only if no call was answered with a mismatch and no expectation is left. -/
theorem rehearsal_detects_deviation (expected : List Expectation) (calls : List Call) (store : Store) (stderr : Sink)
    (shared : Bool) :
    let s := (Session.start store expected stderr shared).afterCalls executor calls
    s.history.map (·.call) = calls ∧
      (∀ (k : Nat) (event : ToolEvent), s.history[k]? = some event → Judged event.call expected[k]? event.result) ∧
      s.tools = expected.drop calls.length ∧
      ((∀ x ∈ expected, ¬ IsMismatch x.result) →
        ((∀ event ∈ s.history, ¬ IsMismatch event.result) ∧ s.tools = [] ↔
          List.Forall₂ (fun x c => Meets x.call c) expected calls)) := by
  intro s
  have hcalls : s.history.map (·.call) = calls := Session.calls_afterCalls executor _ calls
  have hrehearsing : Rehearsing expected s := (Rehearsing.start store stderr shared).afterCalls calls
  have hlength : s.history.length = calls.length := by rw [← hcalls, List.length_map]
  refine ⟨hcalls, hrehearsing.judged, hlength ▸ hrehearsing.left, fun hown => ?_⟩
  rw [hrehearsing.undisturbed_iff hown, ← hcalls, List.forall₂_map_right_iff]

/-- Three expected calls: one that succeeds, one that fails, and one whose program is not found. -/
def threeExpectations : List Expectation :=
  [⟨⟨"pandoc", ["--version"], ⟨"/work"⟩⟩, .ok .success⟩,
    ⟨⟨"python3", ["setup.py", "sdist"], ⟨"/work"⟩⟩, .ok (.ofExitCode 4)⟩,
    ⟨⟨"pandoc", [], ⟨"/work"⟩⟩, .error (.io (.other "pandoc: not found"))⟩]

/-- The three calls, with their directory spelled in other ways. -/
def threeCalls : List Call :=
  [⟨"pandoc", ["--version"], ⟨"/work/"⟩⟩, ⟨"python3", ["setup.py", "sdist"], ⟨"//work/."⟩⟩,
    ⟨"pandoc", [], ⟨"/./work"⟩⟩]

/-- A session with three expected calls, after some calls. -/
def afterThree (calls : List Call) : Session (List Expectation) :=
  (Session.start ⟨.emptyDir, []⟩ threeExpectations .unlimited false).afterCalls executor calls

/-- The expected calls are told from their beginning, from the calls in another order and from those made twice,
although two of the expectations rehearse failures. -/
theorem rehearsal_of_threeCalls :
    (∀ x ∈ threeExpectations, ¬ IsMismatch x.result) ∧
      ((∀ event ∈ (afterThree threeCalls).history, ¬ IsMismatch event.result) ∧ (afterThree threeCalls).tools = []) ∧
      ∀ calls ∈ [threeCalls.dropLast, threeCalls.reverse, threeCalls ++ threeCalls],
        ¬ ((∀ event ∈ (afterThree calls).history, ¬ IsMismatch event.result) ∧ (afterThree calls).tools = []) := by
  have hown : ∀ x ∈ threeExpectations, ¬ IsMismatch x.result := by
    simp [threeExpectations, IsMismatch]
  have hdetects (calls : List Call) := (rehearsal_detects_deviation threeExpectations calls ⟨.emptyDir, []⟩ .unlimited
    false).2.2.2 hown
  refine ⟨hown, (hdetects threeCalls).2 ?_, fun calls hcalls hundisturbed => ?_⟩
  · exact .cons ⟨rfl, rfl, by decide +kernel⟩ (.cons ⟨rfl, rfl, by decide +kernel⟩
      (.cons ⟨rfl, rfl, by decide +kernel⟩ .nil))
  · have hmeets := (hdetects calls).1 hundisturbed
    simp only [List.mem_cons, List.not_mem_nil, or_false] at hcalls
    obtain rfl | rfl | rfl := hcalls
    · exact absurd hmeets.length_eq (by decide)
    · have hfirst : Meets ⟨"pandoc", ["--version"], ⟨"/work"⟩⟩ ⟨"pandoc", [], ⟨"/./work"⟩⟩ :=
        (List.forall₂_cons.1 hmeets).1
      cases hfirst.arguments
    · exact absurd hmeets.length_eq (by decide)

end Rehearsed

end StubRelease
