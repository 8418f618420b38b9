namespace DeviceLock

structure Agenda (α : Type) where
  entries : List (Nat × α) := []

namespace Agenda

variable {α : Type}

def insertInto (due : Nat) (a : α) : List (Nat × α) → List (Nat × α)
  | [] => [(due, a)]
  | e :: es => if e.1 ≤ due then e :: insertInto due a es else (due, a) :: e :: es

def insert (g : Agenda α) (due : Nat) (a : α) : Agenda α := ⟨insertInto due a g.entries⟩

def next? (g : Agenda α) : Option Nat := g.entries.head?.map (·.1)

def pop? (g : Agenda α) (now : Nat) : Option (α × Agenda α) :=
  match g.entries with
  | [] => none
  | (due, a) :: es => if due ≤ now then some (a, ⟨es⟩) else none

end Agenda

end DeviceLock
