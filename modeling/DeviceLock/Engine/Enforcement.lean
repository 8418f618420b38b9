import DeviceLock.Engine.Program

namespace DeviceLock.Program

def pass (provision : ProvisionState) (device : DeviceState) : Program PolicyStep := do
  let step := PolicyStep.resolve provision device
  if step = .idle then return step
  let ends ← request (.join (← perform (.issue provision device step)))
  ofExcept ((step.verdict provision device ends).mapError .enforcement)

/-- Hands an active mode to the scheduler, unless the user is locked. Otherwise the mode in effect
is left; a refusal to leave it does not count. -/
def present (mode : LockMode) : Program Unit := do
  if mode.isActive then
    if ← ask .userUnlocked then discard (perform (.schedule mode))
  else
    perform .cancel
    discard (request (.call .exit))

def enforce (critical : Bool) : Program LockMode := do
  let provision ← cursor
  let device := (← load).device
  match ← attempt (pass provision device) with
  | .error e =>
    perform (.count (.enforcement false))
    throw e
  | .ok _ =>
    perform (.count (.enforcement true))
    let mode := if critical then .criticalError else LockMode.resolve provision device
    present mode
    return mode

def forceCritical (cause : String) : Program LockMode := do
  let mode ← enforce true
  recovery (.reset cause)
  recovery (.reportCritical cause)
  return mode

def criticalReason (cause : String) (fault : Fault) : String :=
  cause ++ "; critical path: " ++ fault.message

def giveUp (config : RecoveryConfig) (cause : String) (fault : Fault) : Program Fault := do
  let reason := criticalReason cause fault
  perform (.count .criticalFailure)
  discard (request (.call (.alarm .criticalEnforcementRetry config.criticalRetry)))
  discard (request (.call (.terminate reason)))
  return .critical reason

def critical (config : RecoveryConfig) (cause : String) : Program LockMode := do
  match ← attempt (forceCritical cause) with
  | .ok mode => return mode
  | .error e => throw (← giveUp config cause e)

end DeviceLock.Program
