import DeviceLock.Timestamp.Basic

namespace DeviceLock.Timestamp

def padded (width n : Nat) : List Char :=
  let ds := Nat.toDigits 10 n
  List.replicate (width - ds.length) '0' ++ ds

def printYear (y : Int) : List Char :=
  if 0 ≤ y ∧ y ≤ 9999 then padded 4 y.toNat
  else (if y < 0 then '-' else '+') :: padded 4 y.natAbs

def printDate (d : Date) : List Char :=
  printYear d.year ++ '-' :: padded 2 d.month ++ '-' :: padded 2 d.day

def printClock (c : Clock) : List Char :=
  padded 2 (c.second / 3600) ++ ':' :: padded 2 (c.second / 60 % 60) ++ ':' ::
    padded 2 (c.second % 60 + c.nano / 1000000000)

def printFraction (nano : Nat) : List Char :=
  if nano = 0 then []
  else if nano % 1000000 = 0 then '.' :: padded 3 (nano / 1000000)
  else if nano % 1000 = 0 then '.' :: padded 6 (nano / 1000)
  else '.' :: padded 9 nano

def display (t : Timestamp) : String :=
  String.ofList (printDate t.date ++ 'T' :: printClock t.clock ++ ['Z'])

def print (t : Timestamp) : String :=
  String.ofList (printDate t.date ++ 'T' :: printClock t.clock ++
    printFraction (t.clock.nano % 1000000000) ++ ['Z'])

end DeviceLock.Timestamp
