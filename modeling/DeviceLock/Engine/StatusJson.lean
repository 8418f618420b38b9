import DeviceLock.Activation.Json
import DeviceLock.Engine.Effect

namespace DeviceLock.Status

open Json

def report (r : ActivationReport Nat) : ActivationReport WorkId :=
  { r with work := .ofNat r.work }

def toJson (s : Status) : Json :=
  .record [
    ("provision_state", .ofMember s.provision),
    ("device_state", .ofMember s.persisted.device),
    ("pseudo_device_state", .ofMember s.pseudo),
    ("expected_mode", .ofMember s.expectedMode),
    ("persisted", s.persisted.toJson),
    ("activation", .ofOption (fun r => (report r).toJson) s.activation)]

end DeviceLock.Status
