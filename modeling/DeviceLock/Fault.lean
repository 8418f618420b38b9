import DeviceLock.Capability
import DeviceLock.Config.Basic
import DeviceLock.Finalization

namespace DeviceLock

inductive StorageFault
  | unavailable (message : String)
  | io
  | serialization
  deriving DecidableEq, Repr

inductive PlatformCall
  | enableSetup | notifySucceeded
  deriving DecidableEq, Repr

def PlatformCall.name : PlatformCall → String
  | enableSetup => "enable_setup_component"
  | notifySucceeded => "notify_provision_succeeded"

inductive Fault
  | illegalTransition (state : ProvisionState) (event : ProvisionEvent)
  | refused (refusal : DeviceRequest.Refusal)
  | illegalFinalization (state : FinalizationState) (event : FinalizationEvent)
  | storage (fault : StorageFault)
  | enforcement (fault : EnforcementFault)
  | config (fault : ConfigFault)
  | activation (message : String)
  | platform (call : PlatformCall) (message : String)
  | recovery (message : String)
  | report (message : String)
  | critical (reason : String)
  | panicked
  | closed
  deriving DecidableEq, Repr

def StorageFault.message : StorageFault → String
  | unavailable m => "storage unavailable: " ++ m
  | io => "storage io error"
  | serialization => "storage serialization error"

def ConfigFault.message : ConfigFault → String
  | unreadable _ => "failed to read config"
  | malformed => "failed to parse config"
  | noAttempts => "invalid config value for activation.max_attempts: must be at least 1"

def DeviceRequest.Refusal.message : DeviceRequest.Refusal → String
  | notYetProvisioned s => "device is not yet provisioned (provision state " ++ s.name ++ ")"
  | deviceCleared => "device has been cleared"

namespace Fault

def message : Fault → String
  | illegalTransition s e =>
    "illegal provision transition: event " ++ e.name ++ " is not valid from " ++ s.name
  | refused r => r.message
  | illegalFinalization s e =>
    "illegal finalization transition: event " ++ e.name ++ " is not valid from " ++ s.name
  | storage f => f.message
  | enforcement f => f.message
  | config f => f.message
  | activation m => "lock task activation failed: " ++ m
  | platform c m => "platform call " ++ c.name ++ " failed: " ++ m
  | recovery m => "recovery action failed: " ++ m
  | report m => "finalization report failed: " ++ m
  | critical r => "critical enforcement failed: " ++ r
  | panicked => "guarded job panicked"
  | closed => "sequential guard closed before the job completed"

end Fault

end DeviceLock
