import DeviceLock.Engine.Operation

namespace DeviceLock.Program

variable {α : Type}

def only (c : Prop) [Decidable c] (p : Program Unit) : Program Unit := if c then p else pure ()

theorem only_bind (c : Prop) [Decidable c] (p : Program Unit) (f : Unit → Program α) :
    only c p >>= f = if c then p >>= f else f () := by
  unfold only
  split <;> rfl

theorem onEntry_eq (event : ProvisionEvent) (next : ProvisionState) :
    onEntry event next = (do
      only (event = .ready) (do write (.startTime (← perform .now)))
      only (next = .inProgress) (platform .enableSetup)
      only (event = .success) (platform .notifySucceeded)) := by
  simp only [only_bind, bind_assoc]
  rfl

def persist (request : DeviceRequest) (provision : ProvisionState) (target : DeviceState) :
    Program DeviceState := do
  write (.device target)
  discard (await (.policy .enforce))
  only (request ≠ .clear ∧ provision = .kioskProvisioned)
    (discard (await (.policy (.transition .success))))
  only (target = .cleared) (discard (await (.finalization .cleared)))
  return target

theorem carryOut_eq (config : DeviceConfig) (request : DeviceRequest) :
    carryOut config request = (do
      let s ← effective
      match request.plan s.1 s.2 config.lenientClear with
      | .error r => throw (.refused r)
      | .ok (.pseudo target) =>
        perform (.setPseudo target)
        return target
      | .ok (.persist target) => persist request s.1 target) := by
  unfold carryOut persist
  refine bind_congr fun ⟨provision, device⟩ => ?_
  rcases hplan : request.plan provision device config.lenientClear with r | target | target
  · simp only [hplan]
  · simp only [hplan]
  · simp only [hplan, only_bind]

def startState (cached : Option FinalizationState) : Program FinalizationState :=
  match cached with
  | some s => pure s
  | none => do return (← load).finalization

def proceed (job : FinalizationJob) (current : FinalizationState) : Program FinalizationState :=
  match job with
  | .cleared => finalize current .restrictionsCleared
  | .read | .retry => pure current

theorem finalization_eq (config : RecoveryConfig) (cached : Option FinalizationState)
    (job : FinalizationJob) :
    finalization config cached job = (do
      let current ← startState cached
      let state ← proceed job current
      only (state ≠ current) (write (.finalization state))
      match job with
      | .read => return state
      | .cleared | .retry => sendReport config state) := by
  unfold finalization startState proceed
  cases cached <;> cases job <;> simp only [only_bind, bind_assoc]

variable (config : RecoveryConfig)

theorem finalization_none (job : FinalizationJob) :
    finalization config none job = (do finalization config (some (← load).finalization) job) := rfl

theorem finalization_read (s : FinalizationState) :
    finalization config (some s) .read = pure s := by
  cases s <;> rfl

theorem finalization_retry (s : FinalizationState) :
    finalization config (some s) .retry = sendReport config s := by
  cases s <;> rfl

theorem finalization_cleared (s : FinalizationState) :
    finalization config (some s) .cleared = (do
      only (s = .unfinalized) (write (.finalization .unreported))
      sendReport config (if s = .finalized then .finalized else .unreported)) := by
  cases s <;> rfl

end DeviceLock.Program
