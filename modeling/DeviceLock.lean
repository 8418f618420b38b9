import DeviceLock.Config.Json
import DeviceLock.Main
import DeviceLock.Store.Basic
import DeviceLock.Proofs.Engine.KioskCommitment
import DeviceLock.Proofs.Engine.LostClear
import DeviceLock.Proofs.Engine.OutdatedEntry
import DeviceLock.Proofs.Engine.PassExclusion
import DeviceLock.Proofs.Engine.ProvisionTrail
import DeviceLock.Proofs.Engine.Quiescence
import DeviceLock.Proofs.Queue.Refinement
import DeviceLock.Proofs.Program.Joining
import DeviceLock.Proofs.Program.CriticalPath
import DeviceLock.Proofs.Engine.CriticalPath
import DeviceLock.Proofs.Engine.PanickedTransition
import DeviceLock.Proofs.Engine.Attendance
import DeviceLock.Proofs.Engine.Backlog
import DeviceLock.Proofs.Engine.Completion
import DeviceLock.Proofs.Program.Reliance
import DeviceLock.Proofs.Engine.Service
import DeviceLock.Proofs.Engine.OwnEvents
import DeviceLock.Proofs.Activation.Abandonment
import DeviceLock.Proofs.Engine.FinalizationSafety
import DeviceLock.Proofs.Engine.DeadlockFreedom
import DeviceLock.Proofs.Engine.EnforcedMode
import DeviceLock.Proofs.Engine.Repetition
import DeviceLock.Proofs.Store.Refinement
import DeviceLock.Proofs.Json.Codec
import DeviceLock.Proofs.Engine.FanOut
import DeviceLock.Proofs.Engine.EntryEffects
import DeviceLock.Proofs.CommandLine.Session
import DeviceLock.Proofs.Activation.Tally
import DeviceLock.Proofs.Activation.Vigil
import DeviceLock.Proofs.Activation.Retries
import DeviceLock.Proofs.Engine.PendingReport
import DeviceLock.Proofs.Activation.Backoff
import DeviceLock.Proofs.Config.Loading
import DeviceLock.Proofs.Engine.PseudoState
import DeviceLock.Proofs.WireName
