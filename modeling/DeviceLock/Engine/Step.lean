import DeviceLock.Engine.Basic

/-!
Steps of the engine. Between two steps of a task any other task may take steps, so a run of the
engine is a list of actions. `Machine.step?` is `none` for an action that is not possible.
-/

namespace DeviceLock

/-- How the surroundings behave while a task takes a step. -/
structure Conduct where
  store : Verdict StorageFault := .ok
  call : Verdict String := .ok
  answer : Option Bool := some true

inductive Response (α : Type)
  | pending
  | panicked
  | answer (a : α)

def Verdict.response {α ε : Type} (v : Verdict ε) (a : α) : Response (Except ε α) :=
  match v with
  | .ok => .answer (.ok a)
  | .refused e => .answer (.error e)
  | .panicked => .panicked

inductive Progress (α : Type)
  | running (rest : Program α)
  | ended (result : Except Fault α)
  | panicked

namespace Machine

def record (m : Machine) (e : Event) : Machine := { m with world := m.world.record e }

def respond (m : Machine) (c : Conduct) : (r : Request) → Machine × Response r.Answer
  | .cursor =>
    match m.engine.cursor with
    | some s => (m, .answer (.ok s))
    | none =>
      let s := m.world.document.provision
      match c.store with
      | .ok => ({ m with engine.cursor := some s }, .answer (.ok s))
      | .refused f => (m, .answer (.error f))
      | .panicked => (m, .panicked)
  | .load => (m, c.store.response m.world.document)
  | .write change =>
    let m := m.record (.wrote change c.store)
    match c.store with
    | .ok => ({ m with world.document := change.apply m.world.document }, .answer (.ok ()))
    | .refused f => (m, .answer (.error f))
    | .panicked => (m, .panicked)
  | .call k => (m.record (.called k c.call), c.call.response ())
  | .ask _ => (m, c.answer.elim .panicked .answer)
  | .join pass => (m, (m.engine.ends? pass).elim .pending .answer)
  | .await t => (m, (m.engine.answer? t).elim .pending .answer)

def perform (m : Machine) (now : Timestamp) : (a : Act) → Machine × a.Answer
  | .moveCursor s => ({ m with engine.cursor := some s }, ())
  | .pseudo => (m, m.engine.pseudo)
  | .setPseudo s => ({ m with engine.pseudo := s }, ())
  | .issue p d step =>
    let n := m.engine.passes.length
    let pass : Pass := ⟨p, d, step, m.engine.capabilities.map fun _ => none⟩
    ({ m with engine.passes := m.engine.passes ++ [pass] }.record (.issued n p d step), n)
  | .schedule mode =>
    let (s, id) := m.engine.scheduler.schedule now m.world.nextWork mode
    let next := if id = m.world.nextWork then id + 1 else m.world.nextWork
    ({ m with engine.scheduler := s, world.nextWork := next }, id)
  | .cancel => ({ m with engine.scheduler := m.engine.scheduler.cancel now }, ())
  | .latest => (m, m.engine.scheduler.latest)
  | .submit job =>
    let (e, t) := m.engine.submit job
    ({ m with engine := e }, t)
  | .count metric => (m.record (.counted metric), ())
  | .now => (m, now)

def advance {α : Type} (m : Machine) (now : Timestamp) : Program α → Machine × Progress α
  | .done r => (m, .ended r)
  | .act a next =>
    let (m, x) := m.perform now a
    advance m now (next x)
  | .wait r next => (m, .running (.wait r next))

def resume? {α : Type} (m : Machine) (now : Timestamp) (c : Conduct) :
    Program α → Option (Machine × Progress α)
  | .wait r next =>
    match m.respond c r with
    | (_, .pending) => none
    | (m, .panicked) => some (m, .panicked)
    | (m, .answer x) => some (m.advance now (next x))
  | _ => none

end Machine

def JobQueue.settle {σ ι : Type} (q : Queue σ ι) : Progress (σ × Except Fault Reply) → Queue σ ι
  | .running rest => q.run rest
  | .ended (.ok (v, a)) => q.finish (.done v a)
  | .ended (.error e) => q.finish (.failed e)
  | .panicked => q.finish .panicked

def Client.ofProgress : Progress Reply → Client
  | .running rest => running rest
  | .ended r => answered r
  | .panicked => panicked

inductive Task
  | job (lane : Lane)
  | client (index : Nat)
  deriving DecidableEq, Repr

inductive Action
  | call (op : Operation)
  | drop (client : Nat)
  | start (lane : Lane)
  | resume (task : Task) (conduct : Conduct)
  | callbackEnds (pass capability : Nat) (result : CallbackEnd)
  | activation (step : TaskStep)
  | restart

namespace Machine

def launch (m : Machine) (now : Timestamp) (p : Program Reply) : Machine :=
  let (m, progress) := m.advance now p
  { m with engine.clients := m.engine.clients ++ [.ofProgress progress] }

def start? (m : Machine) (now : Timestamp) : Lane → Option Machine
  | .policy => do
    let job ← m.engine.policy.next?
    let (m, progress) := m.advance now (job.program m.engine.config m.engine.policy.value)
    return { m with engine.policy := m.engine.policy.settle progress }
  | .requests => do
    let job ← m.engine.requests.next?
    let (m, progress) := m.advance now (job.program m.engine.config)
    return { m with engine.requests := m.engine.requests.settle progress }
  | .finalization => do
    let job ← m.engine.finalization.next?
    let (m, progress) :=
      m.advance now (job.program m.engine.config m.engine.finalization.value)
    return { m with engine.finalization := m.engine.finalization.settle progress }

def resumeTask? (m : Machine) (now : Timestamp) (c : Conduct) : Task → Option Machine
  | .job .policy => do
    let (m, progress) ← m.resume? now c (← m.engine.policy.running)
    return { m with engine.policy := m.engine.policy.settle progress }
  | .job .requests => do
    let (m, progress) ← m.resume? now c (← m.engine.requests.running)
    return { m with engine.requests := m.engine.requests.settle progress }
  | .job .finalization => do
    let (m, progress) ← m.resume? now c (← m.engine.finalization.running)
    return { m with engine.finalization := m.engine.finalization.settle progress }
  | .client i =>
    match m.engine.clients[i]? with
    | some (.running p) => do
      let (m, progress) ← m.resume? now c p
      return { m with engine.clients := m.engine.clients.set i (.ofProgress progress) }
    | _ => none

def endCallback? (m : Machine) (pass capability : Nat) (result : CallbackEnd) : Option Machine := do
  let p ← m.engine.passes[pass]?
  match p.ends[capability]? with
  | some none =>
    let p := { p with ends := p.ends.set capability (some result) }
    return { m with engine.passes := m.engine.passes.set pass p }
  | _ => none

def drop? (m : Machine) (client : Nat) : Option Machine :=
  match m.engine.clients[client]? with
  | some (.running _) => some { m with engine.clients := m.engine.clients.set client .dropped }
  | _ => none

def activationStep? (m : Machine) (now : Timestamp) (t : TaskStep) : Option Machine := do
  return { m with engine.scheduler := ← m.engine.scheduler.step? now t }

def step? (m : Machine) (now : Timestamp) : Action → Option Machine
  | .call op => some (m.launch now (op.program m.engine.config))
  | .drop i => m.drop? i
  | .start lane => m.start? now lane
  | .resume task c => m.resumeTask? now c task
  | .callbackEnds pass capability result => m.endCallback? pass capability result
  | .activation t => m.activationStep? now t
  | .restart => some { m with engine := m.engine.renewed }

end Machine

end DeviceLock
