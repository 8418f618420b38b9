import DeviceLock.CommandLine.Arguments
import DeviceLock.Config.Yaml
import DeviceLock.Simulation.Session

namespace DeviceLock.CommandLine

inductive Outcome
  | help
  | version
  | misuse
  | done (status : Status)
  | failed (complaint : String)
  | terminated
  deriving DecidableEq, Repr

def Outcome.exitCode : Outcome → UInt32
  | help | version | done _ => 0
  | failed _ => 1
  | misuse => 2
  | terminated => 70

structure Cause where
  message : String
  hasCause : Bool

def Cause.ofConfig (f : ConfigFault) : Cause :=
  ⟨f.message, match f with
    | .unreadable _ | .malformed => true
    | .noAttempts => false⟩

def Cause.ofFault : Fault → Cause
  | .config f => ofConfig f
  | f => ⟨f.message, f = .storage .io⟩

def complaint (context : Option String) (cause : Cause) : String :=
  match context with
  | none => "Error: " ++ cause.message
  | some c =>
    "Error: " ++ c ++ "\n\nCaused by:\n    " ++ (if cause.hasCause then "0: " else "") ++
      cause.message

namespace Command

def operation? : Command → Option Operation
  | status => none
  | event e => some (.event e)
  | request r => some (.request r)
  | enforce => some .enforce
  | setupComplete => some .setupCompleted
  | userUnlocked => some .userUnlocked
  | ready => some .ready
  | alarm a => some (.alarm a)

def context? : Command → Option String
  | event e => some ("event " ++ e.name ++ " failed")
  | request r => some (r.name ++ " failed")
  | enforce => some "enforcement failed"
  | _ => none

end Command

def defaultStore : String := "devlock-state.json"

def scripted : List ScriptedCapability :=
  ["user-restrictions", "app-ops", "role-grants", "keep-alive"].map fun name =>
    { name, callbacks := [], otherwise := .ends (.returned true) }

def patience : Nat := 30000

def loadConfig (o : Options) (files : FileSystem) : Except String EngineConfig :=
  match o.config with
  | none => .ok {}
  | some path =>
    (EngineConfig.load path (files.read path).toOption).mapError fun f =>
      complaint (some ("loading config " ++ path)) (.ofConfig f)

def storePath (o : Options) (config : EngineConfig) : String :=
  (o.store.or config.store.path).getD defaultStore

def session (o : Options) (config : EngineConfig) (files : FileSystem) (wall : Timestamp)
    (firstWork : Nat) : Except String Simulation := do
  let store : FileStore := { path := storePath o config }
  let document := match store.load files {} with
    | (_, .ok d) => d
    | (_, .error _) => {}
  let s ← (Simulation.bootstrap wall config scripted document).mapError fun f =>
    complaint none (.ofConfig f)
  return { s with
    world.nextWork := firstWork
    disk := some ⟨files, store⟩
    switches := { setupComplete := !o.setupIncomplete, userUnlocked := !o.userLocked } }

def perform (s : Simulation) (op : Operation) : Simulation × Except (Option Fault) Reply :=
  let (s, r) := s.call (op.program s.config)
  let isEnd : LogEntry → Bool
    | .called (.terminate _) => true
    | _ => false
  if s.log.any isEnd then (s, .error none)
  else
    match r with
    | some (.answered (.ok r)) => (s, .ok r)
    | some (.answered (.error f)) => (s, .error (some f))
    | some .panicked | none => (s, .error none)

def awaitActivation (s : Simulation) : Simulation :=
  match (s.scheduler? s.current).bind Scheduler.latest with
  | some r => if r.status.isTerminal then s else (s.waitFor r.work patience).1
  | none => s

def report (s : Simulation) : Simulation × Outcome :=
  match perform s .status with
  | (s, .ok (.status x)) => (s, .done x)
  | (s, .error (some f)) => (s, .failed (complaint none (.ofFault f)))
  | (s, _) => (s, .terminated)

def obey (s : Simulation) (c : Command) : Simulation × Outcome :=
  match c.operation? with
  | none => report (awaitActivation s)
  | some op =>
    match perform s op with
    | (s, .ok _) => report (awaitActivation s)
    | (s, .error (some f)) => (s, .failed (complaint c.context? (.ofFault f)))
    | (s, .error none) => (s, .terminated)

def run (args : List String) (files : FileSystem) (wall : Timestamp) (firstWork : Nat) :
    FileSystem × Outcome :=
  match Invocation.ofArguments args with
  | .help => (files, .help)
  | .version => (files, .version)
  | .misuse => (files, .misuse)
  | .run o c =>
    match (do session o (← loadConfig o files) files wall firstWork : Except String Simulation) with
    | .error text => (files, .failed text)
    | .ok s =>
      let (s, outcome) := obey s c
      (s.disk.elim files Disk.files, outcome)

end DeviceLock.CommandLine
