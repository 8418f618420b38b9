import DeviceLock.WireName

namespace DeviceLock

inductive ProvisionState
  | unprovisioned | inProgress | paused | failed | kioskProvisioned | succeeded
  deriving DecidableEq, Repr, Inhabited

inductive ProvisionEvent
  | ready | pause | resume | kiosk | failure | retry | success
  deriving DecidableEq, Repr

namespace ProvisionState

def name : ProvisionState → String
  | unprovisioned => "UNPROVISIONED"
  | inProgress => "PROVISION_IN_PROGRESS"
  | paused => "PROVISION_PAUSED"
  | failed => "PROVISION_FAILED"
  | kioskProvisioned => "KIOSK_PROVISIONED"
  | succeeded => "PROVISION_SUCCEEDED"

instance : WireName ProvisionState where
  kind := "provision state"
  all := [unprovisioned, inProgress, paused, failed, kioskProvisioned, succeeded]
  name := name

def hasKiosk : ProvisionState → Bool
  | kioskProvisioned | succeeded => true
  | _ => false

def isEnrolling : ProvisionState → Bool
  | inProgress | paused | failed => true
  | _ => false

end ProvisionState

namespace ProvisionEvent

def name : ProvisionEvent → String
  | ready => "READY"
  | pause => "PAUSE"
  | resume => "RESUME"
  | kiosk => "KIOSK"
  | failure => "FAILURE"
  | retry => "RETRY"
  | success => "SUCCESS"

instance : WireName ProvisionEvent where
  kind := "provision event"
  all := [ready, pause, resume, kiosk, failure, retry, success]
  name := name

end ProvisionEvent

namespace ProvisionState

def next : ProvisionState → ProvisionEvent → Option ProvisionState
  | unprovisioned, .ready => some inProgress
  | inProgress, .pause => some paused
  | paused, .resume => some inProgress
  | inProgress, .kiosk => some kioskProvisioned
  | inProgress, .failure => some failed
  | failed, .retry => some inProgress
  | kioskProvisioned, .success => some succeeded
  | _, _ => none

def source : ProvisionEvent → ProvisionState
  | .ready => unprovisioned
  | .pause | .kiosk | .failure => inProgress
  | .resume => paused
  | .retry => failed
  | .success => kioskProvisioned

theorem next_isSome_iff (s : ProvisionState) (e : ProvisionEvent) :
    (s.next e).isSome = true ↔ s = source e := by
  cases s <;> cases e <;> decide

theorem hasKiosk_of_next {s t : ProvisionState} {e : ProvisionEvent} (h : s.next e = some t)
    (hs : s.hasKiosk = true) : t.hasKiosk = true := by
  revert h hs
  cases s <;> cases e <;> cases t <;> decide

end ProvisionState

end DeviceLock
