import DeviceLock.Policy
import DeviceLock.Text.Quoted

namespace DeviceLock

inductive CallbackEnd
  | returned (ok : Bool)
  | rejected (message : String)
  | panicked (text : Option String)
  deriving DecidableEq, Repr

inductive FailureKind
  | returnedFalse
  | rejected (message : String)
  | aborted (text : Option String)
  deriving DecidableEq, Repr

namespace FailureKind

def ofEnd? : CallbackEnd → Option FailureKind
  | .returned true => none
  | .returned false => some returnedFalse
  | .rejected m => some (rejected m)
  | .panicked t => some (aborted t)

/-- The number of the task that panicked is not shown. -/
def message : FailureKind → String
  | returnedFalse => "returned false"
  | rejected m => "rejected: " ++ m
  | aborted none => "aborted: task # panicked"
  | aborted (some t) => "aborted: task # panicked with message " ++ Text.quote t

theorem ofEnd?_eq_none {e : CallbackEnd} : ofEnd? e = none ↔ e = .returned true := by
  rcases e with (_ | _) | _ | _ <;> simp [ofEnd?]

end FailureKind

structure CapabilityFailure where
  capability : String
  kind : FailureKind
  deriving DecidableEq, Repr

namespace CapabilityFailure

def message (f : CapabilityFailure) : String := f.capability ++ " " ++ f.kind.message

def ofEnd? (e : String × CallbackEnd) : Option CapabilityFailure :=
  (FailureKind.ofEnd? e.2).map (⟨e.1, ·⟩)

end CapabilityFailure

structure EnforcementFault where
  provision : ProvisionState
  device : DeviceState
  step : PolicyStep
  failures : List CapabilityFailure
  deriving DecidableEq, Repr

namespace EnforcementFault

def message (e : EnforcementFault) : String :=
  "policy enforcement failed for (" ++ e.provision.name ++ ", " ++ e.device.name ++ ") at " ++
    e.step.callback ++ ": " ++ String.intercalate "; " (e.failures.map CapabilityFailure.message)

end EnforcementFault

def PolicyStep.verdict (provision : ProvisionState) (device : DeviceState) (step : PolicyStep)
    (ends : List (String × CallbackEnd)) : Except EnforcementFault PolicyStep :=
  match ends.filterMap CapabilityFailure.ofEnd? with
  | [] => .ok step
  | fs => .error ⟨provision, device, step, fs⟩

theorem PolicyStep.verdict_eq_ok_iff {p : ProvisionState} {d : DeviceState} {s : PolicyStep}
    {ends : List (String × CallbackEnd)} :
    s.verdict p d ends = .ok s ↔ ∀ e ∈ ends, e.2 = .returned true := by
  unfold PolicyStep.verdict
  split
  · rename_i h
    simpa [CapabilityFailure.ofEnd?, FailureKind.ofEnd?_eq_none, List.filterMap_eq_nil_iff] using h
  · rename_i h
    simp only [reduceCtorEq, false_iff]
    intro hall
    apply h
    simpa [CapabilityFailure.ofEnd?, FailureKind.ofEnd?_eq_none, List.filterMap_eq_nil_iff]
      using hall

end DeviceLock
