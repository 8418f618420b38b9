import DeviceLock.Timestamp.Basic
import DeviceLock.Text.Blank

/-!
Reading instants. Blanks may stand around each number, a blank may stand for the `T`, a signed year
has any number of digits, and digits after the ninth of a fraction are dropped.
-/

namespace DeviceLock.Timestamp

open Text

def isDigit (c : Char) : Bool := '0' ≤ c && c ≤ '9'

def digitsValue (ds : List Char) : Nat := ds.foldl (fun n d => n * 10 + (d.toNat - 48)) 0

def spanDigits (s : List Char) : List Char × List Char := (s.takeWhile isDigit, s.dropWhile isDigit)

def spanUpTo (width : Nat) (s : List Char) : List Char × List Char :=
  let ds := (s.take width).takeWhile isDigit
  (ds, s.drop ds.length)

def toNumber : List Char × List Char → Option (Nat × List Char)
  | ([], _) => none
  | (ds, rest) => some (digitsValue ds, rest)

def readNumber (width : Nat) (s : List Char) : Option (Nat × List Char) :=
  toNumber (spanUpTo width (trimStart s))

def readYear (s : List Char) : Option (Int × List Char) :=
  match trimStart s with
  | '-' :: s => (toNumber (spanDigits s)).map fun (n, s) => (-(n : Int), s)
  | '+' :: s => (toNumber (spanDigits s)).map fun (n, s) => ((n : Int), s)
  | s => (toNumber (spanUpTo 4 s)).map fun (n, s) => ((n : Int), s)

def readMark (c : Char) (s : List Char) : Option (List Char) :=
  match trimStart s with
  | d :: s => if d = c then some s else none
  | [] => none

def readFraction : List Char → Option (Nat × List Char)
  | '.' :: s =>
    match spanUpTo 9 s with
    | ([], _) => none
    | (ds, rest) => some (digitsValue ds * Nat.pow 10 (9 - ds.length), rest.dropWhile isDigit)
  | s => some (0, s)

def readSign : List Char → Option (Bool × List Char)
  | '+' :: s => some (false, s)
  | '-' :: s => some (true, s)
  | '\u2212' :: s => some (true, s)
  | _ => none

def readPair : List Char → Option (Nat × List Char)
  | a :: b :: s => if isDigit a && isDigit b then some (digitsValue [a, b], s) else none
  | _ => none

def readOffset : List Char → Option (Int × List Char)
  | 'Z' :: s => some (0, s)
  | 'z' :: s => some (0, s)
  | s =>
    match s with
    | u :: t :: c :: rest =>
      if u.toUpper = 'U' ∧ t.toUpper = 'T' ∧ c.toUpper = 'C' then some (0, rest) else numeric s
    | _ => numeric s
where
  numeric (s : List Char) : Option (Int × List Char) := do
    let (negative, s) ← readSign s
    let (hours, s) ← readPair s
    let (minutes, s) ← readPair (s.dropWhile fun c => c = ':' || isBlank c)
    if 60 ≤ minutes then none
    let seconds : Int := hours * 3600 + minutes * 60
    return (if negative then -seconds else seconds, s)

def readSeparator : List Char → Option (List Char)
  | c :: s => if c = 'T' || c = 't' || c = ' ' then some s else none
  | [] => none

def parseChars (s : List Char) : Option Timestamp := do
  let (year, s) ← readYear s
  let (month, s) ← readNumber 2 (← readMark '-' s)
  let (day, s) ← readNumber 2 (← readMark '-' s)
  let (hour, s) ← readNumber 2 (← readSeparator s)
  let (minute, s) ← readNumber 2 (← readMark ':' s)
  let (second, s) ← readNumber 2 (← readMark ':' s)
  let (fraction, s) ← readFraction s
  let (offset, s) ← readOffset (trimStart s)
  if trimStart s ≠ [] then none
  let date ← Date.ofParts? year month day
  if 24 ≤ hour ∨ 60 ≤ minute ∨ 61 ≤ second ∨ 86400 ≤ offset.natAbs then none
  if second = 60 then ofLocal? date (hour * 3600 + minute * 60 + 59) (fraction + 1000000000) offset
  else ofLocal? date (hour * 3600 + minute * 60 + second) fraction offset

def parse (s : String) : Option Timestamp := parseChars s.toList

end DeviceLock.Timestamp
