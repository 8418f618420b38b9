namespace DeviceLock

structure WorkId where
  digits : List (Fin 16)
  length_eq : digits.length = 32
  deriving DecidableEq, Repr

namespace WorkId

def digitChar (d : Fin 16) : Char := Nat.digitChar d

def digit? (c : Char) : Option (Fin 16) :=
  if '0' ≤ c ∧ c ≤ '9' then some (Fin.ofNat 16 (c.toNat - 48))
  else if 'a' ≤ c ∧ c ≤ 'f' then some (Fin.ofNat 16 (c.toNat - 87))
  else if 'A' ≤ c ∧ c ≤ 'F' then some (Fin.ofNat 16 (c.toNat - 55))
  else none

def ofDigits? (ds : List (Fin 16)) : Option WorkId :=
  if h : ds.length = 32 then some ⟨ds, h⟩ else none

def ofNat (n : Nat) : WorkId :=
  ⟨(List.range 32).map fun i => Fin.ofNat 16 (n / Nat.pow 16 (31 - i)), by simp⟩

def printChars (w : WorkId) : List Char :=
  let ds := w.digits.map digitChar
  ds.take 8 ++ '-' :: (ds.drop 8).take 4 ++ '-' :: (ds.drop 12).take 4 ++ '-' ::
    (ds.drop 16).take 4 ++ '-' :: ds.drop 20

def print (w : WorkId) : String := String.ofList w.printChars

def parsePlain (s : List Char) : Option WorkId := do
  ofDigits? (← s.mapM digit?)

def parseGrouped (s : List Char) : Option WorkId :=
  if s.length = 36 ∧
      s[8]? = some '-' ∧ s[13]? = some '-' ∧ s[18]? = some '-' ∧ s[23]? = some '-' then
    parsePlain (s.take 8 ++ (s.drop 9).take 4 ++ (s.drop 14).take 4 ++ (s.drop 19).take 4 ++
      s.drop 24)
  else none

def parseChars (s : List Char) : Option WorkId :=
  if s.length = 32 then parsePlain s
  else match s with
    | '\x7b' :: rest =>
      if rest.getLast? = some '\x7d' then parseGrouped rest.dropLast else none
    | 'u' :: 'r' :: 'n' :: ':' :: 'u' :: 'u' :: 'i' :: 'd' :: ':' :: rest => parseGrouped rest
    | s => parseGrouped s

def parse (s : String) : Option WorkId := parseChars s.toList

end WorkId

end DeviceLock
