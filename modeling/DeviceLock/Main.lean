import DeviceLock.CommandLine.Text
import Std.Time.DateTime

namespace DeviceLock.CommandLine

def Location.text (l : Location) : String := "/" ++ String.intercalate "/" l

def wallClock : IO Timestamp := do
  let t := Std.Time.DateTime.ofTimestampWithZone (← Std.Time.Timestamp.now) .UTC
  let date := Date.ofParts? t.year.toInt t.month.val.toNat t.day.val.toNat
  let second := t.hour.val.toNat * 3600 + t.minute.val.toNat * 60 + t.second.val.toNat
  match date, Clock.ofParts? second t.nanosecond.val.toNat with
  | some d, some c => return ⟨d, c⟩
  | _, _ => throw (IO.userError "the wall clock is out of range")

def entry? (l : Location) : IO (Option FileEntry) := do
  let p := (← IO.currentDir) / Location.text l
  if ← p.isDir then return some .directory
  else if ← p.pathExists then
    return some (.file (Content.ofOctets ((← IO.FS.readBinFile p).toList.map UInt8.toNat)))
  else return none

def places (l : Location) : List PathStep → List Location
  | [] => []
  | .down name :: steps => (l ++ [name]) :: places (l ++ [name]) steps
  | .up :: steps => places l.dropLast steps

def survey (fs : FileSystem) (path : String) : IO FileSystem := do
  match Path.parse path with
  | none => return fs
  | some p =>
    (places [] (fs.here.map .down) ++ places (fs.start p) p.steps).foldlM (fun fs l => do
      match ← entry? l with
      | some e => return fs.put l e
      | none => return fs) fs

def gather (args : List String) : IO FileSystem := do
  let here := ((← IO.currentDir).toString.splitOn "/").filter (· ≠ "")
  let fs : FileSystem := { here }
  match Invocation.ofArguments args with
  | .run o _ =>
    let fs ← (o.config.toList).foldlM survey fs
    match loadConfig o fs with
    | .ok config =>
      let path := storePath o config
      survey (← survey fs path) (path ++ ".tmp")
    | .error _ => return fs
  | _ => return fs

def apply (before after : FileSystem) : IO Unit := do
  let root ← IO.currentDir
  for (l, e) in after.entries.reverse do
    if before.find? l ≠ some e then
      match e with
      | .directory => IO.FS.createDirAll (root / Location.text l)
      | .file c =>
        let temporary := root / (Location.text l ++ ".tmp")
        IO.FS.writeFile temporary c.shown
        IO.FS.rename temporary (root / Location.text l)
  for (l, _) in before.entries do
    if after.find? l = none then IO.FS.removeFile (root / Location.text l)

end DeviceLock.CommandLine

open DeviceLock.CommandLine in
def main (args : List String) : IO UInt32 := do
  let files ← gather args
  let firstWork := (← IO.rand 0 (UInt64.size - 1)) * UInt64.size + (← IO.rand 0 (UInt64.size - 1))
  let (after, outcome) := run args files (← wallClock) firstWork
  apply files after
  for text in outcome.printed? do IO.println text
  for text in outcome.complaint? do IO.eprintln text
  return outcome.exitCode
