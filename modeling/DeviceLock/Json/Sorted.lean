import DeviceLock.Json.Value

namespace DeviceLock.Json

def insertMember (m : String × Json) : List (String × Json) → List (String × Json)
  | [] => [m]
  | n :: ms => if m.1 ≤ n.1 then m :: n :: ms else n :: insertMember m ms

mutual

def sorted : Json → Json
  | .array js => .array (sortedItems js)
  | .object ms => record (sortedMembers ms)
  | j => j

def sortedItems : List Json → List Json
  | [] => []
  | j :: js => sorted j :: sortedItems js

def sortedMembers : List (Pieces × Json) → List (String × Json)
  | [] => []
  | (k, j) :: ms => insertMember (k.text?.getD "", sorted j) (sortedMembers ms)

end

end DeviceLock.Json
