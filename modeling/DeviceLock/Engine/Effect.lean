import DeviceLock.Activation.Report
import DeviceLock.Document.Basic
import DeviceLock.Fault
import DeviceLock.Alarm

/-!
What the engine asks of its surroundings: requests, which take time and can fail, and acts on its
own state, which take none.
-/

namespace DeviceLock

inductive Question
  | setupComplete | userUnlocked
  deriving DecidableEq, Repr

inductive Call
  | platform (call : PlatformCall)
  | exit
  | reset (reason : String)
  | reportCritical (reason : String)
  | alarm (alarm : Alarm) (seconds : UInt64)
  | terminate (reason : String)
  | reportFinalized
  deriving DecidableEq, Repr

inductive PolicyJob
  | enforce
  | critical (cause : String)
  | mode
  | invalidate
  | transition (event : ProvisionEvent)
  deriving DecidableEq, Repr

inductive FinalizationJob
  | read | cleared | retry
  deriving DecidableEq, Repr

inductive Job
  | policy (job : PolicyJob)
  | request (job : DeviceRequest)
  | finalization (job : FinalizationJob)
  deriving DecidableEq, Repr

inductive Lane
  | policy | requests | finalization
  deriving DecidableEq, Repr

structure Ticket where
  lane : Lane
  index : Nat
  deriving DecidableEq, Repr

inductive Metric
  | enforcement (success : Bool)
  | transition (event : ProvisionEvent)
  | rejected (event : ProvisionEvent)
  | criticalFailure
  | activation (outcome : ActivationStatus)
  deriving DecidableEq, Repr

structure Status where
  provision : ProvisionState
  pseudo : DeviceState
  persisted : Document
  activation : Option (ActivationReport Nat)
  deriving DecidableEq, Repr

namespace Status

def expectedMode (s : Status) : LockMode := LockMode.resolve s.provision s.persisted.device

end Status

inductive Reply
  | unit
  | mode (mode : LockMode)
  | provision (state : ProvisionState)
  | device (state : DeviceState)
  | finalization (state : FinalizationState)
  | flag (b : Bool)
  | step (step : PolicyStep)
  | work (id : Nat)
  | document (document : Document)
  | status (status : Status)
  deriving DecidableEq, Repr

inductive Request
  /-- The provision state that enforcement acts on, loaded once. -/
  | cursor
  | load
  | write (change : Change)
  | call (call : Call)
  | ask (question : Question)
  | join (pass : Nat)
  | await (ticket : Ticket)

abbrev Request.Answer : Request → Type
  | cursor => Except StorageFault ProvisionState
  | load => Except StorageFault Document
  | write _ => Except StorageFault Unit
  | call _ => Except String Unit
  | ask _ => Bool
  | join _ => List (String × CallbackEnd)
  | await _ => Except Fault Reply

inductive Act
  | moveCursor (state : ProvisionState)
  | pseudo
  | setPseudo (state : DeviceState)
  | issue (provision : ProvisionState) (device : DeviceState) (step : PolicyStep)
  | schedule (mode : LockMode)
  | cancel
  | latest
  | submit (job : Job)
  | count (metric : Metric)
  | now

abbrev Act.Answer : Act → Type
  | moveCursor _ | setPseudo _ | cancel | count _ => Unit
  | pseudo => DeviceState
  | issue _ _ _ => Nat
  | schedule _ => Nat
  | latest => Option (ActivationReport Nat)
  | submit _ => Ticket
  | now => Timestamp

end DeviceLock
