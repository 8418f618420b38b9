namespace DeviceLock

inductive Ending (σ ρ ε : Type)
  | done (value : σ) (answer : ρ)
  | failed (error : ε)
  | panicked
  deriving DecidableEq, Repr

inductive JobAnswer (ρ ε : Type)
  | answered (answer : ρ)
  | failed (error : ε)
  | panicked
  | closed
  deriving DecidableEq, Repr

namespace Ending

variable {σ ρ ε : Type}

def value : Ending σ ρ ε → σ → σ
  | done v _, _ => v
  | failed _, v => v
  | panicked, v => v

def answer : Ending σ ρ ε → JobAnswer ρ ε
  | done _ a => .answered a
  | failed e => .failed e
  | panicked => .panicked

end Ending

/-- Jobs `ι` over a value `σ`; `κ` is what is left to do of a job that runs. Of the jobs submitted,
the first have ended and at most the one after them runs. -/
structure JobQueue (σ ι κ ρ ε : Type) where
  value : σ
  submitted : List ι := []
  ended : List (Ending σ ρ ε) := []
  running : Option κ := none
  closed : Bool := false

namespace JobQueue

variable {σ ι κ ρ ε : Type}

def submit (q : JobQueue σ ι κ ρ ε) (job : ι) : JobQueue σ ι κ ρ ε × Nat :=
  ({ q with submitted := q.submitted ++ [job] }, q.submitted.length)

def next? (q : JobQueue σ ι κ ρ ε) : Option ι :=
  if q.closed ∨ q.running.isSome then none else q.submitted[q.ended.length]?

def run (q : JobQueue σ ι κ ρ ε) (rest : κ) : JobQueue σ ι κ ρ ε := { q with running := some rest }

def finish (q : JobQueue σ ι κ ρ ε) (e : Ending σ ρ ε) : JobQueue σ ι κ ρ ε :=
  { q with value := e.value q.value, ended := q.ended ++ [e], running := none }

def close (q : JobQueue σ ι κ ρ ε) : JobQueue σ ι κ ρ ε :=
  { q with closed := true, running := none }

def answer? (q : JobQueue σ ι κ ρ ε) (ticket : Nat) : Option (JobAnswer ρ ε) :=
  match q.ended[ticket]? with
  | some e => some e.answer
  | none => if q.closed then some .closed else none

theorem finish_value (q : JobQueue σ ι κ ρ ε) (e : Ending σ ρ ε) :
    (q.finish e).value = e.value q.value := rfl

end JobQueue

end DeviceLock
