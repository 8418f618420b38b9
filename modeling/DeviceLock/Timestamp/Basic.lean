import DeviceLock.Timestamp.Date

/-!
Instants of universal time to the nanosecond. A leap second is a second 59 that lasts twice as
long: its nanoseconds run to two thousand million.
-/

namespace DeviceLock

structure Clock where
  second : Nat
  nano : Nat
  second_lt : second < 86400 := by decide
  nano_lt : nano < 2000000000 := by decide
  deriving DecidableEq, Repr

structure Timestamp where
  date : Date
  clock : Clock
  deriving DecidableEq, Repr

namespace Clock

def ofParts? (second nano : Nat) : Option Clock :=
  if h : second < 86400 ∧ nano < 2000000000 then some ⟨second, nano, h.1, h.2⟩ else none

def compare (a b : Clock) : Ordering :=
  (Ord.compare a.second b.second).then (Ord.compare a.nano b.nano)

end Clock

namespace Timestamp

def compare (a b : Timestamp) : Ordering :=
  (a.date.compare b.date).then (a.clock.compare b.clock)

/-- The instant whose local reading, `offset` seconds ahead of universal time, is given. -/
def ofLocal? (date : Date) (second nano : Nat) (offset : Int) : Option Timestamp := do
  let s := (second : Int) - offset
  let clock ← Clock.ofParts? (s % 86400).toNat nano
  if s < 0 then return ⟨← date.previous?, clock⟩
  else if 86400 ≤ s then return ⟨← date.next?, clock⟩
  else return ⟨date, clock⟩

end Timestamp

end DeviceLock
