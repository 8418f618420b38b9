import DeviceLock.Device
import DeviceLock.Finalization
import DeviceLock.Timestamp.Basic

namespace DeviceLock

structure Document where
  provision : ProvisionState := .unprovisioned
  device : DeviceState := .undefined
  finalization : FinalizationState := .unfinalized
  startTime : Option Timestamp := none
  setupTimedOut : Bool := false
  provisioningReady : Bool := false
  deriving DecidableEq, Repr

inductive Key
  | provision | device | finalization | startTime | setupTimedOut | provisioningReady
  deriving DecidableEq, Repr

namespace Key

def name : Key → String
  | provision => "provision_state"
  | device => "device_state"
  | finalization => "finalization_state"
  | startTime => "provisioning_start_time"
  | setupTimedOut => "setup_wizard_timed_out"
  | provisioningReady => "provisioning_ready"

def all : List Key := [provision, device, finalization, startTime, setupTimedOut, provisioningReady]

def ofName? (s : String) : Option Key := all.find? fun k => k.name == s

end Key

inductive Change
  | provision (s : ProvisionState)
  | device (s : DeviceState)
  | finalization (s : FinalizationState)
  | startTime (t : Timestamp)
  | setupTimedOut (b : Bool)
  | provisioningReady (b : Bool)
  deriving DecidableEq, Repr

namespace Change

def key : Change → Key
  | provision _ => .provision
  | device _ => .device
  | finalization _ => .finalization
  | startTime _ => .startTime
  | setupTimedOut _ => .setupTimedOut
  | provisioningReady _ => .provisioningReady

def apply (d : Document) : Change → Document
  | provision s => { d with provision := s }
  | device s => { d with device := s }
  | finalization s => { d with finalization := s }
  | startTime t => { d with startTime := some t }
  | setupTimedOut b => { d with setupTimedOut := b }
  | provisioningReady b => { d with provisioningReady := b }

end Change

namespace Document

def Agree (a b : Document) : Key → Prop
  | .provision => a.provision = b.provision
  | .device => a.device = b.device
  | .finalization => a.finalization = b.finalization
  | .startTime => a.startTime = b.startTime
  | .setupTimedOut => a.setupTimedOut = b.setupTimedOut
  | .provisioningReady => a.provisioningReady = b.provisioningReady

theorem Agree.refl (a : Document) (k : Key) : Agree a a k := by
  cases k <;> rfl

theorem Agree.symm {a b : Document} {k : Key} (h : Agree a b k) : Agree b a k := by
  cases k <;> exact Eq.symm h

theorem Agree.trans {a b c : Document} {k : Key} (h : Agree a b k) (h' : Agree b c k) :
    Agree a c k := by
  cases k <;> exact Eq.trans h h'

theorem apply_touches (d : Document) (c : Change) {k : Key} (h : k ≠ c.key) :
    Agree (c.apply d) d k := by
  cases c <;> cases k <;> simp_all [Agree, Change.apply, Change.key]

end Document

end DeviceLock
