import DeviceLock.Json.Value
import DeviceLock.WireName

namespace DeviceLock.Json

/-- The fields of a record by name, none given twice. An object may have other members unless the
record is `strict`; an array has at most the fields. -/
def fields? (names : List String) (strict : Bool) : Json → Option (List (String × Json))
  | .object ms => do
    let ms ← ms.mapM fun (k, j) => k.text?.map (·, j)
    let known := ms.filter fun m => names.contains m.1
    if (known.map (·.1)).Nodup ∧ (strict → known.length = ms.length) then some known else none
  | .array js => if js.length ≤ names.length then some (names.zip js) else none
  | _ => none

def optional? {α : Type} (fs : List (String × Json)) (name : String) (default : α)
    (read : Json → Option α) : Option α :=
  match fs.lookup name with
  | some j => read j
  | none => some default

def required? {α : Type} (fs : List (String × Json)) (name : String) (read : Json → Option α) :
    Option α :=
  (fs.lookup name).bind read

variable {α : Type} [WireName α]

def ofMember (a : α) : Json := text (WireName.name a)

def member? : Json → Option α
  | .string s => s.text?.bind WireName.ofName?
  | .object [(k, .null)] => k.text?.bind WireName.ofName?
  | _ => none

end DeviceLock.Json
