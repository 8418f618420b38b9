import DeviceLock.Simulation.Basic

namespace DeviceLock

inductive CallResult
  | answered (result : Except Fault Reply)
  | panicked

def Client.result? : Client → Option CallResult
  | answered r => some (.answered r)
  | panicked => some .panicked
  | running _ | dropped => none

inductive Adjustment
  | setupComplete (b : Bool)
  | userUnlocked (b : Bool)
  | failure (point : Point) (verdict : Verdict String)
  | change (c : Change)
  | script (entries : List Entry)
  | mode (mode : Option LockMode)
  | capability (name : String) (callbacks : List (PolicyStep × Behaviour)) (otherwise : Behaviour)

inductive Directive
  | call (op : Operation)
  | pass (provision : ProvisionState) (device : DeviceState)
  | race (ops : List Operation)
  | drop (op : Operation)
  | pseudo
  | config
  | settle
  | wait (work : Nat)
  | schedule (modes : List LockMode)
  | advance (ms : Nat)
  | set (adjustments : List Adjustment)
  | restart

inductive Outcome
  | nothing
  | call (result : Option CallResult)
  | calls (results : List (Option CallResult))
  | pseudo (state : DeviceState)
  | config (config : EngineConfig)
  | report (report : ActivationReport Nat)
  | timedOut
  | works (ids : List Nat)

structure Snapshot where
  outcome : Outcome
  time : Nat
  log : List LogEntry
  screen : List ScreenEntry
  document : Document
  latest : Option (ActivationReport Nat)
  changed : Bool
  mode : Option LockMode

namespace Simulation

def patience : Nat := 100000

def launch (s : Simulation) (p : Program Reply) : Simulation × Nat :=
  let i := s.current
  let n := (s.engines[i]?.map fun e => e.clients.length).getD 0
  ((s.act? i fun m => some (m.launch s.wall p)).getD s, n)

def start (s : Simulation) (op : Operation) : Simulation × Nat := s.launch (op.program s.config)

def await (s : Simulation) (client : Nat) : Simulation × Option CallResult :=
  let i := s.current
  s.runUntil (fun s => do (← (← s.engines[i]?).clients[client]?).result?) none fuel

def call (s : Simulation) (p : Program Reply) : Simulation × Option CallResult :=
  let (s, n) := s.launch p
  s.await n

def startAll (s : Simulation) : List Operation → Simulation × List Nat
  | [] => (s, [])
  | op :: ops =>
    let (s, n) := s.start op
    let (s, ns) := s.startAll ops
    (s, n :: ns)

def awaitAll (s : Simulation) : List Nat → Simulation × List (Option CallResult)
  | [] => (s, [])
  | n :: ns =>
    let (s, r) := s.await n
    let (s, rs) := s.awaitAll ns
    (s, r :: rs)

def dropCall (s : Simulation) (op : Operation) : Simulation :=
  if op.isQueued then
    let (s, n) := s.start op
    s.quietly s.current fun m => m.drop? n
  else s

def waitFor (s : Simulation) (work ms : Nat) : Simulation × Option (ActivationReport Nat) :=
  let i := s.current
  s.runUntil (fun s => do (← s.scheduler? i).finished? work) (some (s.now + ms)) fuel

def adjust (s : Simulation) : Adjustment → Simulation
  | .setupComplete b => { s with switches.setupComplete := b }
  | .userUnlocked b => { s with switches.userUnlocked := b }
  | .failure p v => { s with switches := s.switches.set p v }
  | .change c => { s with world.document := c.apply s.world.document }
  | .script entries => { s with script := s.script ++ entries }
  | .mode m => { s with mode := m }
  | .capability name callbacks otherwise =>
    { s with scripted := s.scripted.map fun c =>
        if c.name = name then { c with callbacks, otherwise } else c }

def scheduleAll (s : Simulation) : List LockMode → Simulation × List Nat
  | [] => (s, [])
  | m :: ms =>
    let i := s.current
    let s := s.quietly i fun k => some (k.perform s.wall (.schedule m)).1
    let id := (s.scheduler? i).bind fun c => c.slot.map ActivationWork.id
    let (s, ids) := s.scheduleAll ms
    (s, id.toList ++ ids)

def restart (s : Simulation) : Simulation :=
  { s with engines := s.engines ++ (s.engine?.map Engine.renewed).toList }

def obey (s : Simulation) : Directive → Simulation × Outcome
  | .call op =>
    let (s, r) := s.call (op.program s.config)
    (s, .call r)
  | .pass p d =>
    let (s, r) := s.call do return .step (← Program.pass p d)
    (s, .call r)
  | .race ops =>
    let (s, ns) := s.startAll ops
    let (s, rs) := s.awaitAll ns
    (s, .calls rs)
  | .drop op => (s.dropCall op, .nothing)
  | .pseudo => (s, s.engine?.elim .nothing fun e => .pseudo e.pseudo)
  | .config => (s, .config s.config)
  | .settle =>
    match (s.scheduler? s.current).bind Scheduler.latest with
    | none => (s, .nothing)
    | some r =>
      let (s, r?) := s.waitFor r.work patience
      (s, r?.elim .timedOut .report)
  | .wait work =>
    let (s, r?) := s.waitFor work patience
    (s, r?.elim .timedOut .report)
  | .schedule modes =>
    let (s, ids) := s.scheduleAll modes
    (s, .works ids)
  | .advance ms =>
    let (s, _) := s.runUntil (fun _ => (none : Option Unit)) (some (s.now + ms)) fuel
    (s, .nothing)
  | .set adjustments => (adjustments.foldl adjust s, .nothing)
  | .restart => (s.restart, .nothing)

def observed (s : Simulation) (d : Directive) : Simulation × Snapshot :=
  let version := (s.scheduler? s.current).elim 0 Scheduler.version
  let (s, outcome) := { s with log := [], screen := [] }.obey d
  let s := s.settle
  let scheduler := s.scheduler? s.current
  (s, {
    outcome, time := s.now, log := s.log.reverse, screen := s.screen.reverse
    document := s.world.document
    latest := scheduler.bind Scheduler.latest
    changed := scheduler.any fun c => c.version ≠ version
    mode := s.mode })

def run (s : Simulation) : List Directive → Simulation × List Snapshot
  | [] => (s, [])
  | d :: ds =>
    let (s, x) := s.observed d
    let (s, xs) := s.run ds
    (s, x :: xs)

def metrics (s : Simulation) : List Metric :=
  s.counted ++ (s.engines.flatMap fun e => e.scheduler.outcomes).map .activation

def ofEngine (wall : Timestamp) (engine : Engine) (scripted : List ScriptedCapability)
    (document : Document) : Simulation :=
  { wall, config := engine.config, world := { document }, engines := [engine], scripted }

def bootstrap (wall : Timestamp) (config : EngineConfig) (scripted : List ScriptedCapability)
    (document : Document) : Except ConfigFault Simulation :=
  (Engine.ofConfig config (scripted.map ScriptedCapability.name)).map
    (ofEngine wall · scripted document)

end Simulation

end DeviceLock
