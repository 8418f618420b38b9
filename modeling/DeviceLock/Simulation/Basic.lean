import DeviceLock.Simulation.Agenda
import DeviceLock.Simulation.Script
import DeviceLock.Store.FileStore

/-!
An engine, or several over one world, among scripted collaborators on a clock of milliseconds. The
clock stands still while anything can run.
-/

namespace DeviceLock

structure ScreenEntry where
  time : Nat
  mode : Option LockMode
  deriving DecidableEq, Repr

inductive Wake
  | callback (engine pass capability : Nat) (rest : Behaviour)
  | entry (engine work : Nat) (mode : LockMode) (rest : Entry)
  | retry (engine work : Nat)

structure Disk where
  files : FileSystem
  store : FileStore

def Verdict.ofExcept {α ε : Type} : Except ε α → Verdict ε
  | .ok _ => .ok
  | .error e => .refused e

namespace Disk

def load (d : Disk) : Disk × Verdict StorageFault :=
  let (store, r) := d.store.load d.files {}
  ({ d with store }, .ofExcept r)

def write (d : Disk) (c : Change) : Disk × Verdict StorageFault :=
  let (files, store, r) := d.store.write d.files {} c
  (⟨files, store⟩, .ofExcept r)

end Disk

structure Simulation where
  wall : Timestamp
  config : EngineConfig
  world : World := {}
  /-- Every engine that was started; the last one is in use. -/
  engines : List Engine
  scripted : List ScriptedCapability := []
  script : List Entry := []
  switches : Switches := {}
  disk : Option Disk := none
  mode : Option LockMode := none
  now : Nat := 0
  agenda : Agenda Wake := {}
  log : List LogEntry := []
  screen : List ScreenEntry := []
  counted : List Metric := []

namespace Simulation

def current (s : Simulation) : Nat := s.engines.length - 1

def engine? (s : Simulation) : Option Engine := s.engines[s.current]?

def scheduler? (s : Simulation) (i : Nat) : Option (Scheduler Nat) := do
  return (← s.engines[i]?).scheduler

def wakeAfter (s : Simulation) (ms : Nat) (w : Wake) : Simulation :=
  { s with agenda := s.agenda.insert (s.now + ms) w }

def note (s : Simulation) (e : LogEntry) : Simulation := { s with log := e :: s.log }

def noteScreen (s : Simulation) (mode : Option LockMode) : Simulation :=
  { s with screen := ⟨s.now, mode⟩ :: s.screen }

def onEngine (s : Simulation) (i : Nat) (step : Machine → Option Machine) :
    Option (Simulation × List Event) := do
  let m ← step ⟨{ s.world with trace := [] }, ← s.engines[i]?⟩
  let s := { s with
    world := { m.world with trace := [] }
    engines := s.engines.set i m.engine }
  return (s, m.world.trace.reverse)

def quietly (s : Simulation) (i : Nat) (step : Machine → Option Machine) : Simulation :=
  match s.onEngine i step with
  | some (s, _) => s
  | none => s

def runCallback (s : Simulation) (engine pass capability : Nat) (name : String) :
    Behaviour → Simulation
  | .ends result => s.quietly engine fun m => m.endCallback? pass capability result
  | .delay 0 next => (s.note (.resumed name s.now)).runCallback engine pass capability name next
  | .delay ms next => s.wakeAfter ms (.callback engine pass capability next)

def resumeCallback (s : Simulation) (engine pass capability : Nat) (rest : Behaviour) :
    Simulation :=
  match s.scripted[capability]? with
  | none => s
  | some c =>
    (s.note (.resumed c.name s.now)).runCallback engine pass capability c.name rest

def issue (s : Simulation) (engine pass : Nat) (step : PolicyStep) : Simulation :=
  s.scripted.zipIdx.foldl
    (fun s (c, k) =>
      (s.note (.callback c.name step)).runCallback engine pass k c.name (c.behaviour step)) s

def react (s : Simulation) (i : Nat) : Event → Simulation
  | .wrote change _ => s.note (.wrote change)
  | .called .exit v =>
    let s := s.noteScreen none
    if v = .ok then { s with mode := none } else s
  | .called c _ => s.note (.called c)
  | .issued pass _ _ step => s.issue i pass step
  | .counted metric => { s with counted := metric :: s.counted }

def act? (s : Simulation) (i : Nat) (step : Machine → Option Machine) : Option Simulation := do
  let (s, events) ← s.onEngine i step
  return events.foldl (fun s e => s.react i e) s

def phase? (s : Simulation) (i work : Nat) : Option Phase := do
  let w ← (← s.scheduler? i).slot
  if w.id = work then some w.phase else none

def activate (s : Simulation) (i : Nat) (t : TaskStep) : Simulation :=
  s.quietly i fun m => m.activationStep? s.wall t

def restAfterAttempt (s : Simulation) (i work : Nat) : Simulation :=
  match s.phase? i work with
  | some (.resting n) =>
    match s.config.activation.backoff? n with
    | some ms => s.wakeAfter ms (.retry i work)
    | none => s
  | _ => s

def observe (s : Simulation) (i work : Nat) : Simulation :=
  let s := s.activate i .entered
  (s.activate i (.observed s.mode)).restAfterAttempt i work

def runEntry (s : Simulation) (i work : Nat) (mode : LockMode) : Entry → Simulation
  | .enters => { s with mode := some mode }.observe i work
  | .ignores => s.observe i work
  | .observes m => { s with mode := m }.observe i work
  | .rejects message => (s.activate i (.rejected message)).restAfterAttempt i work
  | .hangs => s
  | .panics => s.activate i .panicked
  | .delay 0 next => s.runEntry i work mode next
  | .delay ms next => s.wakeAfter ms (.entry i work mode next)

def enterMode (s : Simulation) (i : Nat) (w : ActivationWork Nat) (t : TaskStep) : Simulation :=
  let s := (s.activate i t).noteScreen (some w.mode)
  { s with script := s.script.tail }.runEntry i w.id w.mode (s.script.head?.getD .enters)

def wake (s : Simulation) : Wake → Simulation
  | .callback engine pass capability rest => s.resumeCallback engine pass capability rest
  | .entry i work mode rest =>
    match s.phase? i work with
    | some (.entering _) => s.runEntry i work mode rest
    | _ => s
  | .retry i work =>
    match s.phase? i work, (s.scheduler? i).bind Scheduler.slot with
    | some (.resting _), some w => s.enterMode i w .wake
    | _, _ => s

def startWork? (s : Simulation) (i : Nat) : Option Simulation := do
  let w ← (← s.scheduler? i).slot
  if w.phase = .starting then some (s.enterMode i w .start) else none

end Simulation

def Engine.request? (e : Engine) (t : Task) : Option Request :=
  let of {α : Type} : Option (Program α) → Option Request
    | some (.wait r _) => some r
    | _ => none
  match t with
  | .job .policy => of e.policy.running
  | .job .requests => of e.requests.running
  | .job .finalization => of e.finalization.running
  | .client i =>
    match e.clients[i]? with
    | some (.running p) => of (some p)
    | _ => none

def Engine.tasks (e : Engine) : List Task :=
  [.job .policy, .job .requests, .job .finalization] ++ (List.range e.clients.length).map .client

namespace Simulation

def consult (d : Disk) (e : Engine) : Request → Disk × Verdict StorageFault
  | .cursor => if e.cursor.isNone then d.load else (d, .ok)
  | .load => d.load
  | .write c => d.write c
  | _ => (d, .ok)

def conduct (s : Simulation) (e : Engine) (r : Request) : Simulation × Conduct :=
  let c := s.switches.conduct r
  match s.disk, c.store with
  | some d, .ok =>
    let (d, v) := consult d e r
    ({ s with disk := some d }, { c with store := v })
  | _, _ => (s, c)

def runTask? (s : Simulation) (i : Nat) (e : Engine) (t : Task) : Option Simulation :=
  match e.request? t, t with
  | some r, _ =>
    let (s, c) := s.conduct e r
    s.act? i fun m => m.resumeTask? s.wall c t
  | none, .job lane => s.act? i fun m => m.start? s.wall lane
  | none, .client _ => none

def runOnce? (s : Simulation) : Option Simulation :=
  match s.agenda.pop? s.now with
  | some (w, agenda) => some ({ s with agenda }.wake w)
  | none =>
    ((List.range s.engines.length).findSome? s.startWork?).or
      (s.engines.zipIdx.findSome? fun (e, i) => e.tasks.findSome? (s.runTask? i e))

def runReady : Nat → Simulation → Simulation
  | 0, s => s
  | fuel + 1, s =>
    match s.runOnce? with
    | some s => runReady fuel s
    | none => s

def fuel : Nat := 1000000

def settle (s : Simulation) : Simulation := runReady fuel s

def tick? (s : Simulation) (limit : Option Nat) : Option Simulation := do
  let due ← s.agenda.next?
  if limit.any (· < due) then none else some { s with now := max s.now due }

/-- Runs until `result?` finds a result. Without one by the time of the limit, or ever, the clock
ends at the limit. -/
def runUntil {α : Type} (result? : Simulation → Option α) (limit : Option Nat) :
    Nat → Simulation → Simulation × Option α
  | 0, s => (s, none)
  | n + 1, s =>
    let s := s.settle
    match result? s with
    | some a => (s, some a)
    | none =>
      match s.tick? limit with
      | some t => if limit = some t.now then (t, none) else runUntil result? limit n t
      | none => ({ s with now := limit.getD s.now }, none)

end Simulation

end DeviceLock
