import DeviceLock.Config.Basic
import DeviceLock.Json.Record

namespace DeviceLock

open Json

private def word64? (j : Json) : Option UInt64 := (j.word? 64).map .ofNat

namespace ActivationConfig

def toJson (c : ActivationConfig) : Json :=
  .record [("max_attempts", .nat c.maxAttempts.toNat), ("retry_delay_ms", .nat c.retryDelay.toNat)]

def ofJson? (j : Json) : Option ActivationConfig := do
  let fs ← j.fields? ["max_attempts", "retry_delay_ms"] true
  let d : ActivationConfig := {}
  return {
    maxAttempts := ← optional? fs "max_attempts" d.maxAttempts fun j => (j.word? 32).map .ofNat
    retryDelay := ← optional? fs "retry_delay_ms" d.retryDelay word64? }

end ActivationConfig

namespace RecoveryConfig

def toJson (c : RecoveryConfig) : Json :=
  .record [
    ("critical_retry_delay_secs", .nat c.criticalRetry.toNat),
    ("setup_completion_timeout_secs", .nat c.setupCompletion.toNat),
    ("finalization_retry_delay_secs", .nat c.finalizationRetry.toNat)]

def ofJson? (j : Json) : Option RecoveryConfig := do
  let fs ← j.fields? ["critical_retry_delay_secs", "setup_completion_timeout_secs",
    "finalization_retry_delay_secs"] true
  let d : RecoveryConfig := {}
  return {
    criticalRetry := ← optional? fs "critical_retry_delay_secs" d.criticalRetry word64?
    setupCompletion := ← optional? fs "setup_completion_timeout_secs" d.setupCompletion word64?
    finalizationRetry :=
      ← optional? fs "finalization_retry_delay_secs" d.finalizationRetry word64? }

end RecoveryConfig

namespace DeviceConfig

def toJson (c : DeviceConfig) : Json :=
  .record [("allow_clear_when_unprovisioned", .bool c.lenientClear)]

def ofJson? (j : Json) : Option DeviceConfig := do
  let fs ← j.fields? ["allow_clear_when_unprovisioned"] true
  return { lenientClear := ← optional? fs "allow_clear_when_unprovisioned" false Json.bool? }

end DeviceConfig

namespace StoreConfig

def toJson (c : StoreConfig) : Json := .record [("path", .ofOption Json.text c.path)]

def ofJson? (j : Json) : Option StoreConfig := do
  let fs ← j.fields? ["path"] true
  return { path := ← optional? fs "path" none (Json.option? Json.text?) }

end StoreConfig

namespace EngineConfig

def toJson (c : EngineConfig) : Json :=
  .record [
    ("activation", c.activation.toJson),
    ("recovery", c.recovery.toJson),
    ("device", c.device.toJson),
    ("store", c.store.toJson)]

def ofJson? (j : Json) : Option EngineConfig := do
  let fs ← j.fields? ["activation", "recovery", "device", "store"] true
  return {
    activation := ← optional? fs "activation" {} ActivationConfig.ofJson?
    recovery := ← optional? fs "recovery" {} RecoveryConfig.ofJson?
    device := ← optional? fs "device" {} DeviceConfig.ofJson?
    store := ← optional? fs "store" {} StoreConfig.ofJson? }

end EngineConfig

end DeviceLock
