import DeviceLock.Activation.Report
import DeviceLock.Document.Json
import DeviceLock.WorkId

namespace DeviceLock.ActivationReport

open Json

def toJson (r : ActivationReport WorkId) : Json :=
  .record [
    ("work_id", .text r.work.print),
    ("mode", .ofMember r.mode),
    ("status", .ofMember r.status),
    ("attempts", .nat r.attempts),
    ("last_error", .ofOption Json.text r.lastError),
    ("updated_at", r.updatedAt.toJson)]

def names : List String := ["work_id", "mode", "status", "attempts", "last_error", "updated_at"]

def ofJson? (j : Json) : Option (ActivationReport WorkId) := do
  let fs ← j.fields? names false
  return {
    work := ← required? fs "work_id" fun j => j.text?.bind WorkId.parse
    mode := ← required? fs "mode" member?
    status := ← required? fs "status" member?
    attempts := ← required? fs "attempts" (word? 32)
    lastError := ← optional? fs "last_error" none (option? text?)
    updatedAt := ← required? fs "updated_at" Timestamp.ofJson? }

end DeviceLock.ActivationReport
