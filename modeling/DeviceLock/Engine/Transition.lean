import DeviceLock.Engine.Enforcement

/-!
Transitions of the provision state. The next state is stored first; the cursor moves when the
effects of entering it are done, and moves back if its policies cannot be applied.
-/

namespace DeviceLock.Program

def onEntry (event : ProvisionEvent) (next : ProvisionState) : Program Unit := do
  if event = .ready then write (.startTime (← perform .now))
  if next = .inProgress then platform .enableSetup
  if event = .success then platform .notifySucceeded

def advance (event : ProvisionEvent) : Program (ProvisionState × ProvisionState) := do
  let previous ← cursor
  match previous.next event with
  | none =>
    perform (.count (.rejected event))
    throw (.illegalTransition previous event)
  | some next =>
    write (.provision next)
    onEntry event next
    perform (.moveCursor next)
    perform (.count (.transition event))
    return (previous, next)

def transition (config : RecoveryConfig) (enforced : Option LockMode) (event : ProvisionEvent) :
    Program (Option LockMode × Except Fault ProvisionState) := do
  match ← attempt (advance event) with
  | .error e => return (enforced, .error e)
  | .ok (previous, next) =>
    match ← attempt (enforce false) with
    | .ok mode => return (some mode, .ok next)
    | .error e =>
      perform (.moveCursor previous)
      match ← attempt (critical config e.message) with
      | .ok mode => return (some mode, .error e)
      | .error f => return (enforced, .error f)

end DeviceLock.Program
