import DeviceLock.Engine.Step

namespace DeviceLock

inductive Behaviour
  | ends (result : CallbackEnd)
  | delay (ms : Nat) (next : Behaviour)
  deriving Repr

instance : Inhabited Behaviour := ⟨.ends (.returned true)⟩

inductive LogEntry
  | wrote (change : Change)
  | called (call : Call)
  | callback (capability : String) (step : PolicyStep)
  | resumed (capability : String) (time : Nat)
  deriving DecidableEq, Repr

def Behaviour.play (name : String) (now : Nat) : Behaviour → Nat × List LogEntry × CallbackEnd
  | ends result => (now, [], result)
  | delay ms next =>
    let (time, log, result) := next.play name (now + ms)
    (time, .resumed name (now + ms) :: log, result)

structure ScriptedCapability where
  name : String
  callbacks : List (PolicyStep × Behaviour)
  otherwise : Behaviour
  deriving Repr

def ScriptedCapability.behaviour (c : ScriptedCapability) (step : PolicyStep) : Behaviour :=
  (c.callbacks.lookup step).getD c.otherwise

def ScriptedCapability.apply (c : ScriptedCapability) (now : Nat) (step : PolicyStep) :
    Nat × List LogEntry × CallbackEnd :=
  if step = .idle then (now, [], .returned true)
  else
    let (time, log, result) := (c.behaviour step).play c.name now
    (time, .callback c.name step :: log, result)

inductive Entry
  | enters
  | ignores
  | observes (mode : Option LockMode)
  | rejects (message : String)
  | hangs
  | panics
  | delay (ms : Nat) (next : Entry)
  deriving Repr, Inhabited

inductive Point
  | load
  | write (key : Key)
  | platform (call : PlatformCall)
  | exit
  | reset
  | reportCritical
  | alarm
  | reportFinalized
  deriving DecidableEq, Repr

def Point.ofCall? : Call → Option Point
  | .platform c => some (platform c)
  | .exit => some exit
  | .reset _ => some reset
  | .reportCritical _ => some reportCritical
  | .alarm _ _ => some alarm
  | .reportFinalized => some reportFinalized
  | .terminate _ => none

structure Switches where
  setupComplete : Bool := true
  userUnlocked : Bool := true
  failures : List (Point × Verdict String) := []

namespace Switches

def verdict (s : Switches) (p : Point) : Verdict String := (s.failures.lookup p).getD .ok

def set (s : Switches) (p : Point) (v : Verdict String) : Switches :=
  { s with failures := (p, v) :: s.failures.filter fun f => f.1 ≠ p }

def storage (s : Switches) (p : Point) : Verdict StorageFault :=
  match s.verdict p with
  | .ok => .ok
  | .refused m => .refused (.unavailable m)
  | .panicked => .panicked

def conduct (s : Switches) : Request → Conduct
  | .cursor | .load => { store := s.storage .load }
  | .write c => { store := s.storage (.write c.key) }
  | .call c => { call := (Point.ofCall? c).elim .ok s.verdict }
  | .ask .setupComplete => { answer := some s.setupComplete }
  | .ask .userUnlocked => { answer := some s.userUnlocked }
  | .join _ | .await _ => {}

end Switches

end DeviceLock
