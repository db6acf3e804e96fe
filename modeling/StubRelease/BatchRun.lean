/-
# StubRelease.BatchRun -- releasing several versions

The versions of a batch are released one after the other, the first failure ending the batch. Only after
the last of them are the outputs packed into tarballs.
-/
import StubRelease.Archive.Tarball
import StubRelease.Pipeline

namespace StubRelease

variable {σ : Type}

/-- Releases the versions of a list, one after the other. -/
def releaseEach (e : Executor σ) (b : Batch) (root : Path) (label : Label) :
    List Version → Run σ Unit
  | [] => pure ()
  | v :: rest => do
    let _ ← package e (b.request v) root label
    releaseEach e b root label rest

/-- Prints the tarballs of a batch. -/
def sayTarballs : List Path → Run σ Unit
  | [] => pure ()
  | tarball :: rest => do
    Run.say (Progress.tarball tarball)
    sayTarballs rest

/-- Releases every version of a batch, then packs the outputs if the batch asks for it. -/
def buildAll (e : Executor σ) (b : Batch) (root : Path) (label : Label) : Run σ (List Path) := do
  releaseEach e b root label b.versions
  let tarballs ← if b.aggregate then Run.ofWork (Archive.aggregateOutputs e.order root) else pure []
  if b.quiet then pure ()
  else
    Run.say (Progress.packaged b.versions.length)
    sayTarballs tarballs
  pure tarballs

end StubRelease
