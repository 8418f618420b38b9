namespace DeviceLock

inductive PathStep
  | down (name : String)
  | up
  deriving DecidableEq, Repr

structure Path where
  absolute : Bool
  steps : List PathStep
  /-- The text ends as only a directory's may. -/
  directory : Bool
  deriving DecidableEq, Repr

namespace Path

def steps? (name : String) : Option PathStep :=
  if name = "" ∨ name = "." then none
  else if name = ".." then some .up
  else some (.down name)

def names (s : String) : List String := (s.toList.splitOn '/').map String.ofList

def parse (s : String) : Option Path :=
  if s = "" then none
  else some {
    absolute := s.toList.head? = some '/'
    steps := (names s).filterMap steps?
    directory := ["", "."].contains ((names s).getLast?.getD "") }

def parent (p : Path) : Path := { p with steps := p.steps.dropLast, directory := false }

end Path

end DeviceLock
