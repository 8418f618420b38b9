namespace DeviceLock

structure ActivationConfig where
  maxAttempts : UInt32 := 5
  /-- Milliseconds; the wait after attempt `n` is `n` times as long. -/
  retryDelay : UInt64 := 500
  deriving DecidableEq, Repr

/-- Delays of the recovery alarms in seconds. -/
structure RecoveryConfig where
  criticalRetry : UInt64 := 60
  setupCompletion : UInt64 := 3600
  finalizationRetry : UInt64 := 300
  deriving DecidableEq, Repr

structure DeviceConfig where
  /-- A clear is accepted again while an unprovisioned device is cleared. -/
  lenientClear : Bool := false
  deriving DecidableEq, Repr

structure StoreConfig where
  path : Option String := none
  deriving DecidableEq, Repr

structure EngineConfig where
  activation : ActivationConfig := {}
  recovery : RecoveryConfig := {}
  device : DeviceConfig := {}
  store : StoreConfig := {}
  deriving DecidableEq, Repr

namespace ActivationConfig

/-- Milliseconds to wait after an attempt, if the number of whole seconds fits 64 bits. -/
def backoff? (c : ActivationConfig) (attempt : Nat) : Option Nat :=
  let wait := c.retryDelay.toNat * attempt
  if wait / 1000 < UInt64.size then some wait else none

end ActivationConfig

inductive ConfigFault
  | unreadable (path : String)
  | malformed
  | noAttempts
  deriving DecidableEq, Repr

namespace EngineConfig

def validate (c : EngineConfig) : Except ConfigFault EngineConfig :=
  if c.activation.maxAttempts = 0 then .error .noAttempts else .ok c

theorem validate_eq_ok {c d : EngineConfig} :
    c.validate = .ok d ↔ c = d ∧ c.activation.maxAttempts ≠ 0 := by
  unfold validate
  split <;> simp_all

end EngineConfig

end DeviceLock
