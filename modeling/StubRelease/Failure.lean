/-
# StubRelease.Failure -- why a run failed

A failure is a cause. Its wording, the exit code it maps to and whether it rejects the invocation before
anything was done are functions on the cause, so a law about failures is a law about causes.
-/
import StubRelease.Errno
import StubRelease.Path

namespace StubRelease

/-- Why validating or running a release failed. -/
inductive Failure where
  /-- The command line does not have the grammar's form. -/
  | invalidInvocation (text : String)
  /-- The mode is neither `develop` nor `release`. -/
  | unsupportedMode (value : String)
  /-- The version is not in the supported set, which the failure lists. -/
  | unsupportedVersion (value supported : String)
  /-- The label cannot become part of a file name. -/
  | invalidLabel (value reason : String)
  /-- Something stands where the run would create its working directory. -/
  | workDirExists (path : Path)
  /-- The configuration file cannot be read or understood. -/
  | invalidConfig (path : Path) (reason : String)
  /-- A tool did not succeed; it has no exit code when a signal killed it. -/
  | commandFailed (program : String) (code : Option Int)
  /-- A file or directory the run has to read is not there. -/
  | missingInput (path : Path)
  /-- A move would replace something. -/
  | destinationExists (path : Path)
  /-- The archive writer failed. -/
  | archive (path : Path) (fault : IoFault)
  /-- A path cannot be shown as text. -/
  | notText (path : Bytes)
  /-- A file operation was refused. -/
  | io (fault : IoFault)
  /-- A rehearsed tool was called otherwise than rehearsed. -/
  | stubMismatch (text : String)
deriving DecidableEq, Repr

namespace Failure

/-- How a tool ended, in words. -/
def describeCode : Option Int → String
  | some code => "exit code " ++ toString code
  | none => "a signal"

/-- What the archive writer says of any fault of the file below it. -/
def archiveFaultText : String := "i/o error"

/-- The text of a failure. -/
def message : Failure → String
  | invalidInvocation text => text
  | unsupportedMode value => value ++ " is not supported; supported modes: develop or release"
  | unsupportedVersion value supported =>
    value ++ " is not supported; supported versions: " ++ supported
  | invalidLabel value reason => "invalid release label \"" ++ value ++ "\": " ++ reason
  | workDirExists path => path.text ++ " already exists; remove it before running again"
  | invalidConfig path reason => "invalid configuration at " ++ path.text ++ ": " ++ reason
  | commandFailed program code => program ++ " failed with " ++ describeCode code
  | missingInput path => "required input " ++ path.text ++ " does not exist"
  | destinationExists path => "refusing to overwrite existing " ++ path.text
  | archive path _ => "failed to write zip archive " ++ path.text ++ ": " ++ archiveFaultText
  | notText path => "path is not valid UTF-8: " ++ path.lossy
  | io fault => "I/O error: " ++ fault.message
  | stubMismatch text => "stub mismatch: " ++ text

/-- The text of the fault below a failure, for the failures that have one. -/
def faultText? : Failure → Option String
  | archive _ _ => some archiveFaultText
  | io fault => some fault.message
  | _ => none

/-- The exit code of every failure that is not a tool's own. -/
def exitCodeDefault : Int := 1

/-- A failing tool hands its own nonzero exit code on; every other failure exits with 1. -/
def exitCode : Failure → Int
  | commandFailed _ (some code) => if code = 0 then exitCodeDefault else code
  | _ => exitCodeDefault

/-- Failures that reject an invocation before anything was done. -/
def isBadInvocation : Failure → Bool
  | invalidInvocation _ | unsupportedMode _ | unsupportedVersion _ _ | invalidLabel _ _
  | workDirExists _ | invalidConfig _ _ => true
  | _ => false

theorem exitCode_eq_one_of_isBadInvocation {f : Failure} (h : f.isBadInvocation = true) :
    f.exitCode = 1 := by
  cases f <;> first | rfl | simp [isBadInvocation] at h

end Failure

end StubRelease
