import DeviceLock.Activation.Scheduler
import DeviceLock.Engine.Operation
import DeviceLock.JobQueue

namespace DeviceLock

inductive Verdict (ε : Type)
  | ok
  | refused (reason : ε)
  | panicked
  deriving DecidableEq, Repr

inductive Event
  | wrote (change : Change) (verdict : Verdict StorageFault)
  | called (call : Call) (verdict : Verdict String)
  | issued (pass : Nat) (provision : ProvisionState) (device : DeviceState) (step : PolicyStep)
  | counted (metric : Metric)
  deriving DecidableEq, Repr

structure World where
  document : Document := {}
  nextWork : Nat := 0
  /-- Newest first. -/
  trace : List Event := []

def World.record (w : World) (e : Event) : World := { w with trace := e :: w.trace }

structure Pass where
  provision : ProvisionState
  device : DeviceState
  step : PolicyStep
  ends : List (Option CallbackEnd)

abbrev Queue (σ ι : Type) :=
  JobQueue σ ι (Program (σ × Except Fault Reply)) (Except Fault Reply) Fault

inductive Client
  | running (rest : Program Reply)
  | answered (result : Except Fault Reply)
  | panicked
  | dropped

structure Engine where
  config : EngineConfig
  capabilities : List String
  cursor : Option ProvisionState := none
  pseudo : DeviceState := .undefined
  scheduler : Scheduler Nat := { config := config.activation }
  passes : List Pass := []
  policy : Queue (Option LockMode) PolicyJob := { value := none }
  requests : Queue Unit DeviceRequest := { value := () }
  finalization : Queue (Option FinalizationState) FinalizationJob := { value := none }
  clients : List Client := []

namespace Engine

def ofConfig (config : EngineConfig) (capabilities : List String) : Except ConfigFault Engine :=
  config.validate.map fun c => { config := c, capabilities }

def renewed (e : Engine) : Engine := { config := e.config, capabilities := e.capabilities }

def ends? (e : Engine) (pass : Nat) : Option (List (String × CallbackEnd)) := do
  return e.capabilities.zip (← (← e.passes[pass]?).ends.mapM id)

end Engine

namespace JobAnswer

def flatten : JobAnswer (Except Fault Reply) Fault → Except Fault Reply
  | answered r => r
  | failed e => .error e
  | panicked => .error .panicked
  | closed => .error .closed

end JobAnswer

namespace Engine

def answer? (e : Engine) (t : Ticket) : Option (Except Fault Reply) :=
  match t.lane with
  | .policy => (e.policy.answer? t.index).map JobAnswer.flatten
  | .requests => (e.requests.answer? t.index).map JobAnswer.flatten
  | .finalization => (e.finalization.answer? t.index).map JobAnswer.flatten

def submit (e : Engine) : Job → Engine × Ticket
  | .policy j =>
    let (q, i) := e.policy.submit j
    ({ e with policy := q }, ⟨.policy, i⟩)
  | .request j =>
    let (q, i) := e.requests.submit j
    ({ e with requests := q }, ⟨.requests, i⟩)
  | .finalization j =>
    let (q, i) := e.finalization.submit j
    ({ e with finalization := q }, ⟨.finalization, i⟩)

end Engine

structure Machine where
  world : World
  engine : Engine

end DeviceLock
