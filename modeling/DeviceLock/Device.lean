import DeviceLock.Provision

namespace DeviceLock

inductive DeviceState
  | undefined | unlocked | locked | cleared
  deriving DecidableEq, Repr, Inhabited

inductive DeviceRequest
  | lock | unlock | clear
  deriving DecidableEq, Repr

namespace DeviceState

def name : DeviceState → String
  | undefined => "UNDEFINED"
  | unlocked => "UNLOCKED"
  | locked => "LOCKED"
  | cleared => "CLEARED"

instance : WireName DeviceState where
  kind := "device state"
  all := [undefined, unlocked, locked, cleared]
  name := name

def isTerminal : DeviceState → Bool
  | cleared => true
  | _ => false

end DeviceState

namespace DeviceRequest

def name : DeviceRequest → String
  | lock => "lock"
  | unlock => "unlock"
  | clear => "clear"

instance : WireName DeviceRequest where
  kind := "device request"
  all := [lock, unlock, clear]
  name := name

def target : DeviceRequest → DeviceState
  | lock => .locked
  | unlock => .unlocked
  | clear => .cleared

inductive Plan
  | pseudo (target : DeviceState)
  | persist (target : DeviceState)
  deriving DecidableEq, Repr

inductive Refusal
  | notYetProvisioned (state : ProvisionState)
  | deviceCleared
  deriving DecidableEq, Repr

/-- Admission. `effective` is the state the request is measured against; `lenient` admits a clear of
a cleared device that is not provisioned. -/
def plan (provision : ProvisionState) (effective : DeviceState) (lenient : Bool)
    (request : DeviceRequest) : Except Refusal Plan :=
  if effective = .cleared ∧ ¬ (lenient ∧ provision = .unprovisioned ∧ request = .clear) then
    .error .deviceCleared
  else if provision = .unprovisioned then .ok (.pseudo request.target)
  else if provision.isEnrolling then .error (.notYetProvisioned provision)
  else .ok (.persist request.target)

theorem plan_eq_ok_iff {p : ProvisionState} {d : DeviceState} {l : Bool} {r : DeviceRequest}
    {x : Plan} (h : p.hasKiosk = true) :
    r.plan p d l = .ok x ↔ d ≠ .cleared ∧ x = .persist r.target := by
  have hplan : r.plan p d l =
      if d = .cleared then .error .deviceCleared else .ok (.persist r.target) := by
    cases p <;> simp_all [plan, ProvisionState.hasKiosk, ProvisionState.isEnrolling]
  rw [hplan]
  split <;> simp [*, eq_comm]

theorem plan_persist {p : ProvisionState} {d t : DeviceState} {l : Bool} {r : DeviceRequest}
    (h : plan p d l r = .ok (.persist t)) : p.hasKiosk = true ∧ t = r.target := by
  unfold plan at h
  cases p <;> simp [ProvisionState.isEnrolling] at h <;> split at h <;>
    simp_all [ProvisionState.hasKiosk]

theorem plan_pseudo {p : ProvisionState} {d t : DeviceState} {l : Bool} {r : DeviceRequest}
    (h : r.plan p d l = .ok (.pseudo t)) : p = .unprovisioned ∧ t = r.target := by
  unfold plan at h
  cases p <;> simp [ProvisionState.isEnrolling] at h <;> split at h <;> simp_all

theorem plan_error {p : ProvisionState} {d : DeviceState} {l : Bool} {r : DeviceRequest}
    {e : Refusal} (h : r.plan p d l = .error e) :
    e = .deviceCleared ∧ d = .cleared ∨ e = .notYetProvisioned p ∧ p.isEnrolling = true := by
  unfold plan at h
  split at h
  · rename_i hcleared
    exact .inl ⟨(Except.error.inj h).symm, hcleared.1⟩
  split at h
  · cases h
  split at h
  · exact .inr ⟨(Except.error.inj h).symm, ‹_›⟩
  · cases h

end DeviceRequest

end DeviceLock
