import DeviceLock.JobQueue

namespace DeviceLock

inductive NumberTask
  | add (n : Int64)
  | mul (n : Int64)
  | read
  | fail (message : String)
  | panic
  | panicAtOnce
  | hang
  | nested (n : Int64)
  deriving DecidableEq, Repr

structure NumberJob where
  task : NumberTask
  delay : Nat := 0
  label : Option String := none
  deriving DecidableEq, Repr

inductive Mark
  | start | fail | finish
  deriving DecidableEq, Repr

structure QueueLogEntry where
  time : Nat
  label : String
  mark : Mark
  value : Int64
  deriving DecidableEq, Repr

structure NumberRun where
  job : NumberJob
  due : Option Nat

structure QueueSession where
  queue : JobQueue Int64 NumberJob NumberRun Int64 String
  now : Nat := 0
  log : List QueueLogEntry := []

namespace QueueSession

def note (s : QueueSession) (job : NumberJob) (mark : Mark) (value : Int64) : QueueSession :=
  match job.label with
  | some label => { s with log := ⟨s.now, label, mark, value⟩ :: s.log }
  | none => s

def submit (s : QueueSession) (job : NumberJob) : QueueSession × Nat :=
  let (queue, ticket) := s.queue.submit job
  ({ s with queue }, ticket)

def finish (s : QueueSession) (e : Ending Int64 Int64 String) : QueueSession :=
  { s with queue := s.queue.finish e }

def succeed (s : QueueSession) (job : NumberJob) (value : Int64) : QueueSession :=
  (s.note job .finish value).finish (.done value value)

def conclude (s : QueueSession) (job : NumberJob) : QueueSession :=
  let value := s.queue.value
  match job.task with
  | .add n => s.succeed job (value + n)
  | .mul n => s.succeed job (value * n)
  | .read => s.succeed job value
  | .fail message => (s.note job .fail value).finish (.failed message)
  | .panic | .panicAtOnce => s.finish .panicked
  | .hang => { s with queue := s.queue.run ⟨job, none⟩ }
  | .nested n => (s.submit { task := .add n }).1.succeed job value

def start (s : QueueSession) (job : NumberJob) : QueueSession :=
  let s := s.note job .start s.queue.value
  if job.task = .panicAtOnce then s.finish .panicked
  else { s with queue := s.queue.run ⟨job, some (s.now + job.delay)⟩ }

def runOnce? (s : QueueSession) : Option QueueSession :=
  match s.queue.running with
  | some r => if r.due.any (· ≤ s.now) then some (s.conclude r.job) else none
  | none => s.queue.next?.map s.start

def settle : Nat → QueueSession → QueueSession
  | 0, s => s
  | fuel + 1, s =>
    match s.runOnce? with
    | some s => settle fuel s
    | none => s

def await (ticket limit : Nat) : Nat → QueueSession → QueueSession × Option (JobAnswer Int64 String)
  | 0, s => (s, none)
  | fuel + 1, s =>
    let s := s.settle fuel
    match s.queue.answer? ticket with
    | some a => (s, some a)
    | none =>
      match s.queue.running.bind NumberRun.due with
      | some due =>
        if due < limit then await ticket limit fuel { s with now := due }
        else ({ s with now := limit }, none)
      | none => ({ s with now := limit }, none)

def patience : Nat := 1000000

/-- Every job ends once and submits at most one more. -/
def fuel (jobs : List NumberJob) : Nat := 10 * (jobs.length + 1)

def awaitAll (fuel : Nat) (s : QueueSession) :
    List Nat → QueueSession × List (Nat × Option (JobAnswer Int64 String))
  | [] => (s, [])
  | t :: ts =>
    let (s, a) := await t (s.now + patience) fuel s
    let (s, as) := awaitAll fuel s ts
    (s, (t, a) :: as)

def prepare (initial : Int64) (jobs : List NumberJob) : QueueSession :=
  jobs.foldl (fun s j => (s.submit j).1) { queue := { value := initial } }

structure Outcome where
  answers : List (Nat × Option (JobAnswer Int64 String))
  final : Option (JobAnswer Int64 String)
  log : List QueueLogEntry

def run (initial : Int64) (jobs : List NumberJob) (awaited : List Nat) : Outcome :=
  let fuel := fuel jobs
  let (s, answers) := awaitAll fuel (prepare initial jobs) awaited
  let (s, ticket) := (s.settle fuel).submit { task := .read }
  let (s, final) := await ticket (s.now + patience) fuel s
  ⟨answers, final, s.log.reverse⟩

inductive Closing
  | before | during
  deriving DecidableEq, Repr

def runClosing (closing : Closing) (initial : Int64) (jobs : List NumberJob) :
    List (Option (JobAnswer Int64 String)) × Nat :=
  let s : QueueSession := prepare initial jobs
  let s := match closing with
    | .before => s
    | .during => s.settle (fuel jobs)
  let queue := s.queue.close
  ((List.range jobs.length).map queue.answer?, (s.log.filter fun e => e.mark = .start).length)

end QueueSession

end DeviceLock
