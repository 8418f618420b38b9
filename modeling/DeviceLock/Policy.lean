import DeviceLock.Device

namespace DeviceLock

inductive LockMode
  | notActive | enrollmentUi | setupUi | lockUi | criticalError
  deriving DecidableEq, Repr

namespace LockMode

def name : LockMode → String
  | notActive => "NOT_ACTIVE"
  | enrollmentUi => "ENROLLMENT_UI"
  | setupUi => "SETUP_UI"
  | lockUi => "LOCK_UI"
  | criticalError => "CRITICAL_ERROR"

instance : WireName LockMode where
  kind := "lock task type"
  all := [notActive, enrollmentUi, setupUi, lockUi, criticalError]
  name := name

def isActive : LockMode → Bool
  | notActive => false
  | _ => true

end LockMode

inductive PolicyStep
  | unprovisioned | provisionInProgress | provisionPaused | provisionFailed | provisioned
  | locked | unlocked | cleared | idle
  deriving DecidableEq, Repr

namespace PolicyStep

def name : PolicyStep → String
  | unprovisioned => "unprovisioned"
  | provisionInProgress => "provision_in_progress"
  | provisionPaused => "provision_paused"
  | provisionFailed => "provision_failed"
  | provisioned => "provisioned"
  | locked => "locked"
  | unlocked => "unlocked"
  | cleared => "cleared"
  | idle => "idle"

instance : WireName PolicyStep where
  kind := "policy step"
  all := [unprovisioned, provisionInProgress, provisionPaused, provisionFailed, provisioned,
    locked, unlocked, cleared, idle]
  name := name

def callback : PolicyStep → String
  | idle => "none"
  | s => "on_" ++ s.name

def resolve : ProvisionState → DeviceState → PolicyStep
  | _, .cleared => cleared
  | .succeeded, .locked => locked
  | .succeeded, .unlocked => unlocked
  | .succeeded, .undefined => idle
  | .unprovisioned, _ => unprovisioned
  | .inProgress, _ => provisionInProgress
  | .paused, _ => provisionPaused
  | .failed, _ => provisionFailed
  | .kioskProvisioned, _ => provisioned

end PolicyStep

def LockMode.resolve : ProvisionState → DeviceState → LockMode
  | _, .cleared => notActive
  | .inProgress, _ => enrollmentUi
  | .kioskProvisioned, _ => setupUi
  | .succeeded, .locked => lockUi
  | _, _ => notActive

end DeviceLock
