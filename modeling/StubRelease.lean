import StubRelease.Archive.Crc32
import StubRelease.Archive.Opened
import StubRelease.BatchRun
import StubRelease.CommandLine.Program
import StubRelease.Launch
import StubRelease.Main
import StubRelease.Shell.Executor
import StubRelease.Tool.Imitation
import StubRelease.Tool.Rehearsed
import StubRelease.Tool.Scripted
import StubRelease.Tree.Action
import StubRelease.Proofs.Sequence
import StubRelease.Proofs.ToolTrace
import StubRelease.Proofs.Tree.Spelling
import StubRelease.Proofs.Tree.View
import StubRelease.Proofs.Tree.Plain
import StubRelease.Proofs.Tree.Ways
import StubRelease.Proofs.Tree.Steps
import StubRelease.Proofs.Tree.Changes
import StubRelease.Proofs.Tree.Growth
import StubRelease.Proofs.Tree.Effects
import StubRelease.Proofs.Unpacking
import StubRelease.Proofs.Archiving
import StubRelease.Proofs.Layout
import StubRelease.Proofs.Staging
import StubRelease.Proofs.Publication
import StubRelease.Proofs.Tree.Opening
import StubRelease.Proofs.Contents
import StubRelease.Proofs.Leftovers
import StubRelease.Proofs.Tree.Houses
import StubRelease.Proofs.Ends
import StubRelease.Proofs.Imitation
import StubRelease.Proofs.Stages
import StubRelease.Proofs.Checkout
import StubRelease.Proofs.Frame
import StubRelease.Proofs.Releasing
import StubRelease.Proofs.History
import StubRelease.Proofs.Untouched
import StubRelease.Proofs.Failing
import StubRelease.Proofs.Recovery
import StubRelease.Proofs.Tree.Gains
import StubRelease.Proofs.Causes
import StubRelease.Proofs.Rejecting
import StubRelease.Proofs.Roots
import StubRelease.Proofs.Checking
import StubRelease.Proofs.Batches
import StubRelease.Proofs.Tree.Writing
import StubRelease.Proofs.RoundTrip
import StubRelease.Proofs.Calendar
import StubRelease.Proofs.CommandLine
import StubRelease.Proofs.ExitCodes
import StubRelease.Proofs.Tree.Accord
import StubRelease.Proofs.Promotion
import StubRelease.Proofs.Staged
import StubRelease.Proofs.BatchCommandLine
import StubRelease.Proofs.Printing
import StubRelease.Proofs.Aggregates
import StubRelease.Proofs.Releasable
import StubRelease.Proofs.Ordering
import StubRelease.Proofs.Confinement
import StubRelease.Proofs.Moving
import StubRelease.Proofs.Collisions
import StubRelease.Proofs.Tree.Targets
import StubRelease.Proofs.Copying
import StubRelease.Proofs.Selection
import StubRelease.Proofs.Override
import StubRelease.Proofs.DateLabels
import StubRelease.Proofs.Naming
import StubRelease.Proofs.ByteOrder
import StubRelease.Proofs.Keys
import StubRelease.Proofs.Settings
import StubRelease.Proofs.Loading
import StubRelease.Proofs.Anchoring
import StubRelease.Proofs.Programs
import StubRelease.Proofs.Rehearsal
import StubRelease.Proofs.MachineCalendar
