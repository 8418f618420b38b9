import DeviceLock.Engine.Operation

/-!
The arguments of the command line. Options may stand before and after the command; the value after
it counts. `--` ends the options.
-/

namespace DeviceLock.CommandLine

inductive Command
  | status
  | event (event : ProvisionEvent)
  | request (request : DeviceRequest)
  | enforce
  | setupComplete
  | userUnlocked
  | ready
  | alarm (alarm : Alarm)
  deriving DecidableEq, Repr

structure Options where
  config : Option String := none
  store : Option String := none
  json : Bool := false
  setupIncomplete : Bool := false
  userLocked : Bool := false
  deriving DecidableEq, Repr

inductive Invocation
  | help
  | version
  | run (options : Options) (command : Command)
  | misuse
  deriving DecidableEq, Repr

inductive Flag
  | json | setupIncomplete | userLocked
  deriving DecidableEq, Repr

inductive Setting
  | config | store
  deriving DecidableEq, Repr

inductive Token
  | help
  | version
  | flag (flag : Flag)
  | setting (setting : Setting) (value : Option String)
  | divider
  | word (s : String)
  | unknown
  deriving DecidableEq, Repr

namespace Token

def ofLong (name : String) (value : Option String) : Token :=
  match name, value with
  | "config", v => setting .config v
  | "store", v => setting .store v
  | "json", none => flag .json
  | "setup-incomplete", none => flag .setupIncomplete
  | "user-locked", none => flag .userLocked
  | "help", none => help
  | "version", none => version
  | _, _ => unknown

def splitValue (s : List Char) : String × Option String :=
  let name := String.ofList (s.takeWhile (· ≠ '='))
  match s.dropWhile (· ≠ '=') with
  | [] => (name, none)
  | _ :: value => (name, some (String.ofList value))

def ofArgument (s : String) : Token :=
  match s.toList with
  | ['-', '-'] => divider
  | '-' :: '-' :: rest =>
    let (name, value) := splitValue rest
    ofLong name value
  | '-' :: 'h' :: _ => help
  | '-' :: 'V' :: _ => version
  | '-' :: _ :: _ => unknown
  | _ => word s

end Token

namespace Options

def raise? (o : Options) : Flag → Option Options
  | .json => if o.json then none else some { o with json := true }
  | .setupIncomplete => if o.setupIncomplete then none else some { o with setupIncomplete := true }
  | .userLocked => if o.userLocked then none else some { o with userLocked := true }

def set? (o : Options) (s : Setting) (value : String) : Option Options :=
  if value = "" then none
  else match s with
    | .config => if o.config.isSome then none else some { o with config := some value }
    | .store => if o.store.isSome then none else some { o with store := some value }

def merge (before after : Options) : Options where
  config := after.config.or before.config
  store := after.store.or before.store
  json := before.json || after.json
  setupIncomplete := before.setupIncomplete || after.setupIncomplete
  userLocked := before.userLocked || after.userLocked

end Options

inductive Shape
  | plain (command : Command)
  | valued (read : String → Option Command)

def eventName : ProvisionEvent → String
  | .ready => "ready"
  | .pause => "pause"
  | .resume => "resume"
  | .kiosk => "kiosk"
  | .failure => "failure"
  | .retry => "retry"
  | .success => "success"

def alarmName : Alarm → String
  | .setupCompletionTimeout => "setup-timeout"
  | .criticalEnforcementRetry => "critical-retry"
  | .finalizationReportRetry => "finalization-retry"

def event? (s : String) : Option Command :=
  ((WireName.all (α := ProvisionEvent)).find? fun e => eventName e == s).map .event

def alarm? (s : String) : Option Command :=
  ((WireName.all (α := Alarm)).find? fun a => alarmName a == s).map .alarm

def shape? (name : String) : Option Shape :=
  match name with
  | "status" => some (.plain .status)
  | "event" => some (.valued event?)
  | "lock" => some (.plain (.request .lock))
  | "unlock" => some (.plain (.request .unlock))
  | "clear" => some (.plain (.request .clear))
  | "enforce" => some (.plain .enforce)
  | "setup-complete" => some (.plain .setupComplete)
  | "user-unlocked" => some (.plain .userUnlocked)
  | "ready" => some (.plain .ready)
  | "alarm" => some (.valued alarm?)
  | _ => none

structure Reading where
  options : Options
  shape : Shape
  value : Option String := none

namespace Reading

def command? (r : Reading) : Option Command :=
  match r.shape, r.value with
  | .plain c, none => some c
  | .valued read, some v => read v
  | _, _ => none

def word? (r : Reading) (s : String) : Option Reading :=
  match r.shape, r.value with
  | .valued _, none => some { r with value := some s }
  | _, _ => none

def isSound (r : Reading) : Bool :=
  match r.shape, r.value with
  | .valued read, some v => (read v).isSome
  | _, _ => true

end Reading

def finish (before : Options) (r : Reading) : Invocation :=
  match r.command? with
  | some c => .run (before.merge r.options) c
  | none => .misuse

def readWords (before : Options) (r : Reading) : List String → Invocation
  | [] => finish before r
  | s :: rest =>
    match r.word? s with
    | some r => readWords before r rest
    | none => .misuse

def readCommand (before : Options) (r : Reading) : List String → Invocation
  | [] => finish before r
  | s :: rest =>
    match Token.ofArgument s with
    | .help => if r.isSound then .help else .misuse
    | .divider => readWords before r rest
    | .flag f =>
      match r.options.raise? f with
      | some o => readCommand before { r with options := o } rest
      | none => .misuse
    | .setting k (some v) =>
      match r.options.set? k v with
      | some o => readCommand before { r with options := o } rest
      | none => .misuse
    | .setting k none =>
      match rest with
      | v :: rest =>
        match Token.ofArgument v, r.options.set? k v with
        | .word _, some o => readCommand before { r with options := o } rest
        | _, _ => .misuse
      | [] => .misuse
    | .word s =>
      match r.word? s with
      | some r => readCommand before r rest
      | none => .misuse
    | .version | .unknown => .misuse

def readHelp : List String → Invocation
  | [] => .help
  | [name] => if name = "help" ∨ (shape? name).isSome then .help else .misuse
  | _ => .misuse

def readOptions (o : Options) : List String → Invocation
  | [] => .misuse
  | s :: rest =>
    match Token.ofArgument s with
    | .help => .help
    | .version => .version
    | .flag f =>
      match o.raise? f with
      | some o => readOptions o rest
      | none => .misuse
    | .setting k (some v) =>
      match o.set? k v with
      | some o => readOptions o rest
      | none => .misuse
    | .setting k none =>
      match rest with
      | v :: rest =>
        match Token.ofArgument v, o.set? k v with
        | .word _, some o => readOptions o rest
        | _, _ => .misuse
      | [] => .misuse
    | .word name =>
      if name = "help" then readHelp rest
      else
        match shape? name with
        | some shape => readCommand o { options := {}, shape } rest
        | none => .misuse
    | .divider | .unknown => .misuse

def Invocation.ofArguments (args : List String) : Invocation := readOptions {} args

end DeviceLock.CommandLine
