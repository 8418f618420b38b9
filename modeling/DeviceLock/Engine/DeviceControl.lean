import DeviceLock.Engine.Program

namespace DeviceLock.Program

/-- The provision state and the device state that requests are measured against, which before
provisioning is the one held in memory. -/
def effective : Program (ProvisionState × DeviceState) := do
  let provision ← cursor
  if provision = .unprovisioned then return (provision, ← perform .pseudo)
  else return (provision, (← load).device)

def carryOut (config : DeviceConfig) (request : DeviceRequest) : Program DeviceState := do
  let (provision, device) ← effective
  match request.plan provision device config.lenientClear with
  | .error r => throw (.refused r)
  | .ok (.pseudo target) =>
    perform (.setPseudo target)
    return target
  | .ok (.persist target) =>
    write (.device target)
    discard (await (.policy .enforce))
    if request ≠ .clear ∧ provision = .kioskProvisioned then
      discard (await (.policy (.transition .success)))
    if target = .cleared then discard (await (.finalization .cleared))
    return target

def isLocked : Program Bool := do return (← effective).2 = .locked

end DeviceLock.Program
