import DeviceLock.Engine.Program

namespace DeviceLock.Program

def finalize (state : FinalizationState) (event : FinalizationEvent) : Program FinalizationState :=
  match state.next event with
  | some next => return next
  | none => throw (.illegalFinalization state event)

def sendReport (config : RecoveryConfig) (state : FinalizationState) :
    Program FinalizationState := do
  if state ≠ .unreported then return state
  match ← request (.call .reportFinalized) with
  | .ok () =>
    let next ← finalize state .reportAcknowledged
    write (.finalization next)
    return next
  | .error _ =>
    recovery (.alarm .finalizationReportRetry config.finalizationRetry)
    return state

def finalization (config : RecoveryConfig) (cached : Option FinalizationState)
    (job : FinalizationJob) : Program FinalizationState := do
  let current ← match cached with
    | some s => pure s
    | none => do pure (← load).finalization
  let state ← match job with
    | .cleared => finalize current .restrictionsCleared
    | .read | .retry => pure current
  if state ≠ current then write (.finalization state)
  match job with
  | .read => return state
  | .cleared | .retry => sendReport config state

end DeviceLock.Program
