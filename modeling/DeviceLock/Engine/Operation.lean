import DeviceLock.Engine.DeviceControl
import DeviceLock.Engine.FinalizationReport
import DeviceLock.Engine.Transition

/-!
The jobs of the three queues and the operations that callers start, each as a program. A job ends
with the value for the job after it and its answer.
-/

namespace DeviceLock

namespace Program

def keep {σ : Type} (value : σ) (reply : Reply) : Program (σ × Except Fault Reply) :=
  return (value, .ok reply)

def recorded (mode : LockMode) : Program (Option LockMode × Except Fault Reply) :=
  keep (some mode) (.mode mode)

end Program

open Program

def PolicyJob.program (config : EngineConfig) (enforced : Option LockMode) :
    PolicyJob → Program (Option LockMode × Except Fault Reply)
  | .enforce => do recorded (← Program.enforce false)
  | .critical cause => do recorded (← Program.critical config.recovery cause)
  | .mode =>
    match enforced with
    | some m => recorded m
    | none => do recorded (← Program.enforce false)
  | .invalidate => keep none .unit
  | .transition event => do
    let (next, result) ← Program.transition config.recovery enforced event
    return (next, result.map .provision)

def DeviceRequest.program (config : EngineConfig) (request : DeviceRequest) :
    Program (Unit × Except Fault Reply) := do
  keep () (.device (← carryOut config.device request))

def FinalizationJob.program (config : EngineConfig) (cached : Option FinalizationState)
    (job : FinalizationJob) : Program (Option FinalizationState × Except Fault Reply) := do
  let state ← Program.finalization config.recovery cached job
  keep (some state) (.finalization state)

inductive Operation
  | event (event : ProvisionEvent)
  | request (request : DeviceRequest)
  | enforce
  | critical (cause : String)
  | mode
  | invalidate
  | finalization
  | notifyCleared
  | retryReport
  | isLocked
  | deviceState
  | provisionState
  | notifyReady
  | ready
  | userUnlocked
  | setupCompleted
  | setupTimeout
  | reconcile
  | alarm (alarm : Alarm)
  | document
  | status
  | schedule (mode : LockMode)
  | deactivate
  deriving DecidableEq, Repr

def Operation.isQueued : Operation → Bool
  | event _ | request _ | enforce | critical _ | mode | invalidate | finalization | notifyCleared
  | retryReport => true
  | _ => false

namespace Program

def setupDone : Program Bool := do
  if ← ask .setupComplete then return true
  else return (← load).setupTimedOut

def raise (event : ProvisionEvent) : Program Reply := await (.policy (.transition event))

def raiseReady : Program Reply := do
  discard (raise .ready)
  return .unit

def reenforce : Program Reply := do
  discard (await (.policy .enforce))
  return .unit

def reconcile : Program Reply := do
  if (← cursor) = .unprovisioned then
    if ← setupDone then
      if (← load).provisioningReady then raiseReady
      else reenforce
    else reenforce
  else reenforce

def notifyReady (config : RecoveryConfig) : Program Reply := do
  if ← setupDone then raiseReady
  else
    recovery (.alarm .setupCompletionTimeout config.setupCompletion)
    return .unit

def setupTimeout : Program Reply := do
  write (.setupTimedOut true)
  reconcile

def status : Program Reply := do
  let persisted ← load
  let provision ← cursor
  return .status ⟨provision, ← perform .pseudo, persisted, ← perform .latest⟩

end Program

def Operation.program (config : EngineConfig) : Operation → Program Reply
  | event e => raise e
  | request r => await (.request r)
  | enforce => await (.policy .enforce)
  | critical cause => await (.policy (.critical cause))
  | mode => await (.policy .mode)
  | invalidate => await (.policy .invalidate)
  | finalization => await (.finalization .read)
  | notifyCleared => await (.finalization .cleared)
  | retryReport => await (.finalization .retry)
  | isLocked => do return .flag (← Program.isLocked)
  | deviceState => do return .device (← load).device
  | provisionState => do return .provision (← cursor)
  | notifyReady => Program.notifyReady config.recovery
  | ready => do
    write (.provisioningReady true)
    Program.notifyReady config.recovery
  | userUnlocked => do
    discard (await (.policy .invalidate))
    Program.reconcile
  | setupCompleted | reconcile | alarm .criticalEnforcementRetry => Program.reconcile
  | setupTimeout | alarm .setupCompletionTimeout => Program.setupTimeout
  | alarm .finalizationReportRetry => do
    discard (await (.finalization .retry))
    return .unit
  | document => do return .document (← load)
  | status => Program.status
  | schedule m => do return .work (← perform (.schedule m))
  | deactivate => do
    perform .cancel
    call .exit .activation
    return .unit

end DeviceLock
