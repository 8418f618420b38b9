import DeviceLock.Document.Basic
import DeviceLock.Json.Record
import DeviceLock.Json.Reader
import DeviceLock.Json.Printer
import DeviceLock.Timestamp.Printer
import DeviceLock.Timestamp.Reader

namespace DeviceLock

namespace Timestamp

def ofJson? (j : Json) : Option Timestamp := j.text?.bind parse

def toJson (t : Timestamp) : Json := Json.text t.print

end Timestamp

namespace Document

def toJson (d : Document) : Json :=
  .record [
    (Key.provision.name, .ofMember d.provision),
    (Key.device.name, .ofMember d.device),
    (Key.finalization.name, .ofMember d.finalization),
    (Key.startTime.name, .ofOption Timestamp.toJson d.startTime),
    (Key.setupTimedOut.name, .bool d.setupTimedOut),
    (Key.provisioningReady.name, .bool d.provisioningReady)]

def ofJson? (j : Json) : Option Document := do
  let fs ← j.fields? (Key.all.map Key.name) false
  return {
    provision := ← Json.optional? fs Key.provision.name .unprovisioned Json.member?
    device := ← Json.optional? fs Key.device.name .undefined Json.member?
    finalization := ← Json.optional? fs Key.finalization.name .unfinalized Json.member?
    startTime := ← Json.optional? fs Key.startTime.name none (Json.option? Timestamp.ofJson?)
    setupTimedOut := ← Json.optional? fs Key.setupTimedOut.name false Json.bool?
    provisioningReady := ← Json.optional? fs Key.provisioningReady.name false Json.bool? }

def parse (c : Content) : Option Document := (Json.parse c).bind ofJson?

def render (d : Document) : String := d.toJson.pretty

def get (d : Document) : Key → Json
  | .provision => .ofMember d.provision
  | .device => .ofMember d.device
  | .finalization => .ofMember d.finalization
  | .startTime => .ofOption Timestamp.toJson d.startTime
  | .setupTimedOut => .bool d.setupTimedOut
  | .provisioningReady => .bool d.provisioningReady

end Document

namespace Change

def ofJson? (k : Key) (j : Json) : Option Change :=
  match k with
  | .provision => (Json.member? j).map provision
  | .device => (Json.member? j).map device
  | .finalization => (Json.member? j).map finalization
  | .startTime => (Timestamp.ofJson? j).map startTime
  | .setupTimedOut => j.bool?.map setupTimedOut
  | .provisioningReady => j.bool?.map provisioningReady

end Change

end DeviceLock
