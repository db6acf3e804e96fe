/-
# StubRelease.Tool.Status -- how a tool ended

The operating system reports the end of a process as a 32-bit status. A process that was not killed has
zeros in its seven lowest bits and its exit code in the second byte; only the status zero is success.
-/

namespace StubRelease

/-- The status a process ended with. -/
structure WaitStatus where
  raw : UInt32
deriving DecidableEq, Repr

namespace WaitStatus

/-- The status of an exit with a code; all but the code's low 24 bits are lost. -/
def ofExitCode (code : Int) : WaitStatus := ⟨UInt32.ofNat ((code * 256) % 4294967296).toNat⟩

/-- The status of a process killed by a signal. -/
def ofSignal (signal : Int) : WaitStatus := ⟨UInt32.ofNat (signal % 4294967296).toNat⟩

def success : WaitStatus := ⟨0⟩

/-- Whether the process succeeded. -/
def isSuccess (w : WaitStatus) : Bool := w.raw == 0

/-- The exit code; a process killed by a signal has none. -/
def code? (w : WaitStatus) : Option Int :=
  if w.raw.toNat % 128 = 0 then some ((w.raw.toNat / 256 % 256 : Nat) : Int) else none

@[simp] theorem isSuccess_success : success.isSuccess = true := rfl

end WaitStatus

end StubRelease
