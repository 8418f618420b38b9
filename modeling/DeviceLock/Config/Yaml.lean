import DeviceLock.Config.Basic
import DeviceLock.Yaml.Node
import DeviceLock.Text.Blank
import DeviceLock.Text.Content

/-!
Settings from YAML: a mapping of sections, each a mapping of fields. No name is unknown or given
twice; a section without a value is empty.
-/

namespace DeviceLock

namespace Yaml.Node

def text? : Node → Option String
  | .scalar _ _ s => some s
  | _ => none

/-- A scalar that is read for its type: plain, or a literal block tagged with that type. -/
def typed? (type : String) : Node → Option String
  | .scalar .plain _ s => some s
  | .scalar .literal tag s => if tag = some ("tag:yaml.org,2002:" ++ type) then some s else none
  | _ => none

def bool? (n : Node) : Option Bool := do
  match ← n.typed? "bool" with
  | "true" | "True" | "TRUE" => some true
  | "false" | "False" | "FALSE" => some false
  | _ => none

def digits? (base : Nat) (s : List Char) : Option Nat :=
  if s = [] then none
  else s.foldlM (fun n c => do
    let d ← hexValue? c
    if d < base then some (n * base + d) else none) 0

/-- A number without a minus: decimal without leading zeros, or after `0x`, `0o` or `0b`. -/
def natOfChars? (s : List Char) : Option Nat :=
  let s := match s with
    | '+' :: s => s
    | s => s
  match s with
  | '0' :: 'x' :: s => digits? 16 s
  | '0' :: 'o' :: s => digits? 8 s
  | '0' :: 'b' :: s => digits? 2 s
  | '0' :: c :: s => if (c :: s).all Char.isDigit then none else digits? 10 ('0' :: c :: s)
  | s => digits? 10 s

def word? (bits : Nat) (n : Node) : Option Nat := do
  (natOfChars? (← n.typed? "int").toList).filter (· < Nat.pow 2 bits)

def isNull (s : String) : Bool := s = "null" || s = "Null" || s = "NULL" || s = "~"

def optionalText? : Node → Option (Option String)
  | .scalar .plain none s => if s = "" || isNull s then some none else some (some s)
  | .scalar .plain (some tag) s =>
    if tag = "tag:yaml.org,2002:null" then (if isNull s then some none else none)
    else some (some s)
  | .scalar _ _ s => some (some s)
  | _ => none

def entries? : Node → Option (List (String × Node))
  | .scalar .plain _ "" => some []
  | .mapping entries => entries.mapM fun (k, v) => k.text?.map (·, v)
  | _ => none

def section? (names : List String) (n : Node) : Option (List (String × Node)) := do
  let entries ← n.entries?
  let keys := entries.map (·.1)
  if keys.all names.contains ∧ keys.Nodup then some entries else none

def field? {α : Type} (entries : List (String × Node)) (name : String) (default : α)
    (read : Node → Option α) : Option α :=
  match entries.lookup name with
  | some n => read n
  | none => some default

end Yaml.Node

open Yaml (Node)

namespace ActivationConfig

def ofYaml? (n : Node) : Option ActivationConfig := do
  let es ← n.section? ["max_attempts", "retry_delay_ms"]
  let d : ActivationConfig := {}
  return {
    maxAttempts := ← Node.field? es "max_attempts" d.maxAttempts fun n => (n.word? 32).map .ofNat
    retryDelay := ← Node.field? es "retry_delay_ms" d.retryDelay fun n => (n.word? 64).map .ofNat }

end ActivationConfig

namespace RecoveryConfig

def ofYaml? (n : Node) : Option RecoveryConfig := do
  let es ← n.section? ["critical_retry_delay_secs", "setup_completion_timeout_secs",
    "finalization_retry_delay_secs"]
  let d : RecoveryConfig := {}
  let word := fun n : Node => (n.word? 64).map UInt64.ofNat
  return {
    criticalRetry := ← Node.field? es "critical_retry_delay_secs" d.criticalRetry word
    setupCompletion := ← Node.field? es "setup_completion_timeout_secs" d.setupCompletion word
    finalizationRetry :=
      ← Node.field? es "finalization_retry_delay_secs" d.finalizationRetry word }

end RecoveryConfig

namespace DeviceConfig

def ofYaml? (n : Node) : Option DeviceConfig := do
  let es ← n.section? ["allow_clear_when_unprovisioned"]
  return { lenientClear := ← Node.field? es "allow_clear_when_unprovisioned" false Node.bool? }

end DeviceConfig

namespace StoreConfig

def ofYaml? (n : Node) : Option StoreConfig := do
  let es ← n.section? ["path"]
  return { path := ← Node.field? es "path" none Node.optionalText? }

end StoreConfig

namespace EngineConfig

def ofYaml? (n : Node) : Option EngineConfig := do
  let es ← n.section? ["activation", "recovery", "device", "store"]
  return {
    activation := ← Node.field? es "activation" {} ActivationConfig.ofYaml?
    recovery := ← Node.field? es "recovery" {} RecoveryConfig.ofYaml?
    device := ← Node.field? es "device" {} DeviceConfig.ofYaml?
    store := ← Node.field? es "store" {} StoreConfig.ofYaml? }

def ofDocument? : Option Node → Option EngineConfig
  | none => some {}
  | some n => ofYaml? n

def parse (s : String) : Except ConfigFault EngineConfig :=
  if Text.trim s.toList = [] then validate {}
  else
    match (Node.parse s).bind ofDocument? with
    | some c => c.validate
    | none => .error .malformed

def load (path : String) (content : Option Content) : Except ConfigFault EngineConfig :=
  match content.bind Content.text? with
  | some s => parse s
  | none => .error (.unreadable path)

end EngineConfig

end DeviceLock
