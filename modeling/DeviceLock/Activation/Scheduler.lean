import DeviceLock.Activation.Report
import DeviceLock.Config.Basic

/-!
The scheduler of lock mode activations. It owns one unit of work at a time, whose task enters the
mode, looks whether it took effect, and tries again within the budget.
-/

namespace DeviceLock

/-- Where the task of a unit of work stands; attempts count from one. -/
inductive Phase
  | starting
  | entering (attempt : Nat)
  | observing (attempt : Nat)
  /-- The attempt failed and the next one is not due yet. -/
  | resting (attempt : Nat)
  | stopped
  deriving DecidableEq, Repr

structure ActivationWork (ι : Type) where
  id : ι
  mode : LockMode
  status : ActivationStatus := .pending
  phase : Phase := .starting
  lastError : Option String := none
  deriving DecidableEq, Repr

inductive TaskStep
  | start
  | entered
  | rejected (message : String)
  | observed (mode : Option LockMode)
  | panicked
  | wake
  deriving DecidableEq, Repr

inductive SchedulerEvent (ι : Type)
  | published (report : ActivationReport ι)
  | entering (work : ι) (mode : LockMode)
  deriving DecidableEq, Repr

structure Scheduler (ι : Type) where
  config : ActivationConfig
  slot : Option (ActivationWork ι) := none
  history : List (ActivationReport ι) := []
  latest : Option (ActivationReport ι) := none
  version : Nat := 0
  outcomes : List ActivationStatus := []
  log : List (SchedulerEvent ι) := []
  deriving DecidableEq, Repr

namespace Scheduler

def historySize : Nat := 16

variable {ι : Type} [DecidableEq ι]

def maxAttempts (s : Scheduler ι) : Nat := max s.config.maxAttempts.toNat 1

def publish (s : Scheduler ι) (r : ActivationReport ι) : Scheduler ι :=
  match s.slot with
  | none => s
  | some w =>
    if w.id = r.work ∧ w.status.isTerminal = false then
      { s with
        slot := some { w with status := r.status }
        history := if r.status.isTerminal then (r :: s.history).take historySize else s.history
        latest := some r
        version := s.version + 1
        outcomes := if r.status.isTerminal then r.status :: s.outcomes else s.outcomes
        log := .published r :: s.log }
    else s

def setSlot (s : Scheduler ι) (w : ActivationWork ι) : Scheduler ι := { s with slot := some w }

def cancel (s : Scheduler ι) (now : Timestamp) : Scheduler ι :=
  match s.slot with
  | none => s
  | some w =>
    if w.status.isTerminal then s
    else (s.setSlot { w with phase := .stopped }).publish ⟨w.id, w.mode, .cancelled, 0, none, now⟩

/-- Work on `mode` that has not ended is kept; otherwise `fresh` identifies a new unit. -/
def schedule (s : Scheduler ι) (now : Timestamp) (fresh : ι) (mode : LockMode) : Scheduler ι × ι :=
  let replace :=
    (((s.cancel now).setSlot { id := fresh, mode }).publish
      ⟨fresh, mode, .pending, 0, none, now⟩, fresh)
  match s.slot with
  | none => replace
  | some w => if w.mode = mode ∧ w.status.isTerminal = false then (s, w.id) else replace

def attempt (s : Scheduler ι) (now : Timestamp) (w : ActivationWork ι) (n : Nat) : Scheduler ι :=
  let s := (s.setSlot { w with phase := .entering n }).publish
    ⟨w.id, w.mode, .executing, n, w.lastError, now⟩
  { s with log := .entering w.id w.mode :: s.log }

/-- Ends a failed attempt. The task dies of a wait that is too long to be kept. -/
def fail (s : Scheduler ι) (now : Timestamp) (w : ActivationWork ι) (n : Nat) (message : String) :
    Scheduler ι :=
  let w := { w with lastError := some message }
  if n < s.maxAttempts then
    match s.config.backoff? n with
    | some _ => s.setSlot { w with phase := .resting n }
    | none => s.setSlot { w with phase := .stopped }
  else
    (s.setSlot { w with phase := .stopped }).publish
      ⟨w.id, w.mode, .failed, s.maxAttempts, some message, now⟩

def notInEffect (mode : LockMode) (observed : Option LockMode) : String :=
  "mode " ++ mode.name ++ " not in effect after entry (observed " ++
    (observed.elim "none" LockMode.name) ++ ")"

def entryRejected (message : String) : String := "lock task activation failed: " ++ message

def step? (s : Scheduler ι) (now : Timestamp) (t : TaskStep) : Option (Scheduler ι) :=
  match s.slot with
  | none => none
  | some w =>
    match w.phase, t with
    | .starting, .start => some (s.attempt now w 1)
    | .resting n, .wake => some (s.attempt now w (n + 1))
    | .entering n, .entered => some (s.setSlot { w with phase := .observing n })
    | .entering n, .rejected m => some (s.fail now w n (entryRejected m))
    | .observing n, .observed m =>
      if m = some w.mode then
        some ((s.setSlot { w with phase := .stopped }).publish
          ⟨w.id, w.mode, .completed, n, none, now⟩)
      else some (s.fail now w n (notInEffect w.mode m))
    | .entering _, .panicked | .observing _, .panicked =>
      some (s.setSlot { w with phase := .stopped })
    | _, _ => none

def finished? (s : Scheduler ι) (work : ι) : Option (ActivationReport ι) :=
  s.history.find? fun r => r.work = work

end Scheduler

/-- Someone who waits for the end of a unit of work: `seen` reports had been published when the
kept ones were last looked through. -/
structure Waiter (ι : Type) where
  work : ι
  seen : Nat
  deriving DecidableEq, Repr

namespace Waiter

variable {ι : Type} [DecidableEq ι]

def subscribe (s : Scheduler ι) (work : ι) : Waiter ι := ⟨work, s.version⟩

def isWoken (w : Waiter ι) (s : Scheduler ι) : Bool := w.seen < s.version

def check (w : Waiter ι) (s : Scheduler ι) : Waiter ι × Option (ActivationReport ι) :=
  ({ w with seen := s.version }, s.finished? w.work)

end Waiter

end DeviceLock
