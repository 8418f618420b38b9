import DeviceLock.Policy
import DeviceLock.Timestamp.Basic

namespace DeviceLock

inductive ActivationStatus
  | pending | executing | completed | failed | cancelled
  deriving DecidableEq, Repr

namespace ActivationStatus

def name : ActivationStatus → String
  | pending => "pending"
  | executing => "executing"
  | completed => "completed"
  | failed => "failed"
  | cancelled => "cancelled"

instance : WireName ActivationStatus where
  kind := "activation status"
  all := [pending, executing, completed, failed, cancelled]
  name := name

def isTerminal : ActivationStatus → Bool
  | pending | executing => false
  | completed | failed | cancelled => true

end ActivationStatus

structure ActivationReport (ι : Type) where
  work : ι
  mode : LockMode
  status : ActivationStatus
  attempts : Nat
  lastError : Option String
  updatedAt : Timestamp
  deriving DecidableEq, Repr

end DeviceLock
