import DeviceLock.Proofs.Queue.Fold
import DeviceLock.Simulation.QueueSession

namespace DeviceLock

namespace JobQueue

variable {σ ι κ ρ ε : Type} {B : JobBehaviour σ ι κ ρ ε} {v : σ} {q : JobQueue σ ι κ ρ ε}
  {l : List (QueueEvent σ ι ρ ε)}

theorem Run.add (h : Run B v l q) (jobs : List ι) : ∃ l', Run B v l' (q.add jobs) := by
  induction jobs generalizing l q with
  | nil => exact ⟨l, by rwa [add_nil]⟩
  | cons j jobs ih =>
    obtain ⟨l', h'⟩ := ih (h.submit j)
    refine ⟨l', ?_⟩
    have : ((q.submit j).1.add jobs) = q.add (j :: jobs) := add_add q [j] jobs
    rwa [this] at h'

end JobQueue

def Progress.stop {σ : Type} :
    Progress (σ × Except Fault Reply) →
      Stop σ (Program (σ × Except Fault Reply)) (Except Fault Reply) Fault
  | running rest => .suspended rest
  | ended (.ok (v, a)) => .ended (.done v a)
  | ended (.error e) => .ended (.failed e)
  | panicked => .ended .panicked

theorem JobQueue.settle_eq_halt {σ ι : Type} (q : Queue σ ι)
    (progress : Progress (σ × Except Fault Reply)) : q.settle progress = q.halt progress.stop := by
  rcases progress with _ | (_ | _) | _ <;> rfl

def Lane.behaviour (config : EngineConfig) (lane : Lane) :
    JobBehaviour lane.Value lane.Work (Program (lane.Value × Except Fault Reply))
      (Except Fault Reply) Fault where
  begins j v more s := ∃ progress l, Progress.After (lane.program config v j) l progress ∧
    more = List.flatMap (Deed.submitted lane) l ∧ s = progress.stop
  goesOn p _ more s := ∃ progress l, (Progress.After p l progress ∨ progress = .panicked ∧ l = []) ∧
    more = List.flatMap (Deed.submitted lane) l ∧ s = progress.stop

namespace Machine

variable {P : Action → Prop} {m₀ m m' : Machine} {now : Timestamp} {a : Action} {lane : Lane}

theorem run_of_step {v : lane.Value}
    {l : List (QueueEvent lane.Value lane.Work (Except Fault Reply) Fault)}
    (hrun : (m.engine.queue lane).Run (lane.behaviour m.engine.config) v l)
    (h : m.step? now a = some m') (hr : a ≠ .restart) :
    ∃ l', JobQueue.Run (lane.behaviour m'.engine.config) v l' (m'.engine.queue lane) := by
  have hframe := step_frame h hr
  rw [hframe.config]
  by_cases ha : a.lane? = some lane
  · rcases Action.eq_of_lane? ha with rfl | ⟨c, rfl⟩
    · obtain ⟨j, progress, hj, hafter, hq⟩ := start_queue h
      rw [hq, JobQueue.settle_eq_halt]
      exact ⟨_, hrun.start hj ⟨progress, _, hafter, rfl, rfl⟩⟩
    · obtain ⟨p, progress, hp, hafter, hq⟩ := resume_queue h
      rw [hq, JobQueue.settle_eq_halt]
      refine ⟨_, hrun.goOn hp ⟨progress, _, ?_, rfl, rfl⟩⟩
      exact hafter.imp_right fun h => ⟨h.1, h.2.1⟩
  · rw [hframe.queue lane ha]
    exact hrun.add _

/-- What happens in a lane of an engine is a run of its queue. -/
theorem Reaches.run_of_lane {d : Document} (hf : Fresh d m₀) (h : Reaches P m₀ m)
    (hP : ¬ P .restart) :
    ∃ l, JobQueue.Run (lane.behaviour m.engine.config) (m₀.engine.queue lane).value l
      (m.engine.queue lane) := by
  induction h with
  | refl =>
    obtain ⟨v, hv⟩ : ∃ v, m₀.engine.queue lane = { value := v } := by
      rw [hf.engine.1]
      cases lane <;> exact ⟨_, rfl⟩
    rw [hv]
    exact ⟨[], .create⟩
  | step _ ha hs ih =>
    obtain ⟨l, hl⟩ := ih
    exact run_of_step hl hs fun he => hP (he ▸ ha)

end Machine

namespace NumberJob

def outcome (job : NumberJob) (v : Int64) : List NumberJob × Stop Int64 NumberRun Int64 String :=
  match job.task with
  | .add n => ([], .ended (.done (v + n) (v + n)))
  | .mul n => ([], .ended (.done (v * n) (v * n)))
  | .read => ([], .ended (.done v v))
  | .fail message => ([], .ended (.failed message))
  | .panic | .panicAtOnce => ([], .ended .panicked)
  | .hang => ([], .suspended ⟨job, none⟩)
  | .nested n => ([{ task := .add n }], .ended (.done v v))

def behaviour : JobBehaviour Int64 NumberJob NumberRun Int64 String where
  begins job _ more s := more = [] ∧
    (job.task = .panicAtOnce ∧ s = .ended .panicked ∨ ∃ due, s = .suspended ⟨job, due⟩)
  goesOn r v more s := (more, s) = r.job.outcome v

end NumberJob

namespace QueueSession

open NumberJob

variable {v : Int64} {s s' : QueueSession} {t limit fuel : Nat} {a : JobAnswer Int64 String}

def Runs (v : Int64) (s : QueueSession) : Prop := ∃ l, s.queue.Run behaviour v l

@[simp]
theorem note_queue (s : QueueSession) (job : NumberJob) (mark : Mark) (value : Int64) :
    (s.note job mark value).queue = s.queue := by
  unfold note
  split <;> rfl

theorem conclude_queue (s : QueueSession) (job : NumberJob) :
    (s.conclude job).queue =
      (s.queue.add (job.outcome s.queue.value).1).halt (job.outcome s.queue.value).2 := by
  cases ht : job.task <;>
    simp [conclude, outcome, ht, finish, succeed, submit, JobQueue.halt, JobQueue.submit,
      JobQueue.add]

theorem Runs.of_run {l : List (QueueEvent Int64 NumberJob Int64 String)}
    {q : JobQueue Int64 NumberJob NumberRun Int64 String} (h : q.Run behaviour v l)
    (hq : s.queue = q) : Runs v s := ⟨l, hq ▸ h⟩

theorem Runs.submit (h : Runs v s) (job : NumberJob) : Runs v (s.submit job).1 := by
  obtain ⟨l, hl⟩ := h
  exact .of_run (hl.submit job) rfl

theorem Runs.start {job : NumberJob} (h : Runs v s) (hj : s.queue.next? = some job) :
    Runs v (s.start job) := by
  obtain ⟨l, hl⟩ := h
  unfold QueueSession.start
  dsimp only
  split
  · rename_i ht
    have hstart := hl.start hj (B := behaviour) (s := .ended .panicked) ⟨rfl, .inl ⟨ht, rfl⟩⟩
    exact .of_run hstart (by simp [QueueSession.finish, JobQueue.halt])
  · have hstart := hl.start hj (B := behaviour) ⟨rfl, .inr ⟨some (s.now + job.delay), rfl⟩⟩
    have hnow : (s.note job .start s.queue.value).now = s.now := by
      unfold note
      split <;> rfl
    exact .of_run hstart (by simp [JobQueue.halt, hnow])

theorem Runs.conclude {r : NumberRun} (h : Runs v s) (hr : s.queue.running = some r) :
    Runs v (s.conclude r.job) := by
  obtain ⟨l, hl⟩ := h
  exact .of_run (hl.goOn hr rfl) (conclude_queue s r.job)

theorem Runs.runOnce (h : Runs v s) (hs : s.runOnce? = some s') : Runs v s' := by
  unfold runOnce? at hs
  split at hs
  · rename_i r hr
    split at hs
    · cases hs
      exact h.conclude hr
    · cases hs
  · obtain ⟨job, hj, rfl⟩ := Option.map_eq_some_iff.mp hs
    exact h.start hj

theorem Runs.settle (h : Runs v s) (fuel : Nat) : Runs v (s.settle fuel) := by
  induction fuel generalizing s with
  | zero => exact h
  | succ fuel ih =>
    unfold QueueSession.settle
    split
    · rename_i s' hs
      exact ih (h.runOnce hs)
    · exact h

theorem Runs.at (h : Runs v s) (now : Nat) : Runs v { s with now } := h

theorem Runs.await (h : Runs v s) (t limit fuel : Nat) :
    Runs v (await t limit fuel s).1 ∧
      ∀ a, (await t limit fuel s).2 = some a →
        (await t limit fuel s).1.queue.answer? t = some a := by
  induction fuel generalizing s with
  | zero => exact ⟨h, fun a ha => by cases ha⟩
  | succ fuel ih =>
    have hsettled := h.settle fuel
    unfold QueueSession.await
    dsimp only
    split
    · rename_i b hb
      exact ⟨hsettled, fun a ha => ha ▸ hb⟩
    · split
      · split
        · exact ih (hsettled.at _)
        · exact ⟨hsettled.at _, fun a ha => by cases ha⟩
      · exact ⟨hsettled.at _, fun a ha => by cases ha⟩

theorem Runs.prepare (v : Int64) (jobs : List NumberJob) : Runs v (prepare v jobs) := by
  have hfold (s : QueueSession) (hs : Runs v s) :
      Runs v (jobs.foldl (fun s j => (s.submit j).1) s) := by
    induction jobs generalizing s with
    | nil => exact hs
    | cons j jobs ih => exact ih _ (hs.submit j)
  exact hfold _ ⟨[], .create⟩

theorem Runs.awaitAll (h : Runs v s) (fuel : Nat) (ts : List Nat) :
    ∀ t a, (t, some a) ∈ (awaitAll fuel s ts).2 →
      ∃ s', Runs v s' ∧ s'.queue.answer? t = some a := by
  induction ts generalizing s with
  | nil => exact fun t a hmem => by cases hmem
  | cons t ts ih =>
    obtain ⟨hruns, hanswer⟩ := h.await t (s.now + patience) fuel
    intro t' a hmem
    rcases List.mem_cons.mp hmem with heq | hmem
    · obtain ⟨rfl, ha⟩ := Prod.mk.inj heq
      exact ⟨_, hruns, hanswer a ha.symm⟩
    · exact ih hruns t' a hmem

theorem answer_of_run (v : Int64) (jobs : List NumberJob) (awaited : List Nat) :
    ∀ t a, (t, some a) ∈ (run v jobs awaited).answers →
      ∃ s, Runs v s ∧ s.queue.answer? t = some a :=
  (Runs.prepare v jobs).awaitAll _ awaited

end QueueSession

namespace JobQueue

variable {σ ι κ ρ ε : Type} {B : JobBehaviour σ ι κ ρ ε} {v : σ} {q : JobQueue σ ι κ ρ ε}
  {l : List (QueueEvent σ ι ρ ε)}

/-- Whatever jobs do and whoever submits them, a queue does what a fold over them does: they start
in the order of the calls and at most once, each with the value that those before it have left, and
an answer is that of the job, or tells that the worker went away before it had ended. -/
theorem refines_fold (h : Run B v l q) :
    Folded B v l q ∧
      (∃ n, n ≤ q.submitted.length ∧ l.filterMap QueueEvent.start? = List.range n) ∧
      (∀ t e, q.ended[t]? = some e → q.answer? t = some e.answer) ∧
      (∀ t, q.answer? t = some .closed ↔ q.closed = true ∧ q.ended.length ≤ t) ∧
      ∀ t, t < q.submitted.length → q.answer? t = none →
        (∃ k, q.running = some k) ∨ ∃ j, q.next? = some j := by
  have hfolded := h.folded
  refine ⟨hfolded, hfolded.starts, fun t e he => ?_, fun t => ?_, fun t ht hn => ?_⟩
  · exact (answer?_eq_some q t e.answer).mpr (.inl ⟨e, he, rfl⟩)
  · rw [answer?_eq_some]
    constructor
    · rintro (⟨e, -, he⟩ | ⟨-, hclosed⟩)
      · exact absurd he.symm e.answer_ne_closed
      · exact hclosed
    · exact fun hclosed => .inr ⟨rfl, hclosed⟩
  · obtain ⟨hlive, hle⟩ := (answer?_eq_none q t).mp hn
    cases hr : q.running with
    | some k => exact .inl ⟨k, rfl⟩
    | none => exact .inr (next_of_waiting hlive hr (Nat.lt_of_le_of_lt hle ht))

def mixed : QueueSession :=
  let s := (QueueSession.prepare 0 [{ task := .add 5 }, { task := .nested 3 },
    { task := .fail "refused" }, { task := .panicAtOnce }, { task := .panic }]).settle 20
  ((s.submit { task := .hang }).1.submit { task := .read }).1.settle 20

theorem refines_fold_mixed :
    ∃ l q, Run NumberJob.behaviour 0 l q ∧ q.closed = true ∧
      q.value = Ending.fold 0 q.ended ∧ q.value = 8 ∧
      (List.range 8).map q.answer? = [some (.answered 5), some (.answered 5),
        some (.failed "refused"), some .panicked, some .panicked, some (.answered 8),
        some .closed, some .closed] ∧
      QueueEvent.resolved 2 (.failed "refused") ∈ l ∧ QueueEvent.resolved 6 .closed ∈ l := by
  have hmixed : mixed.Runs 0 :=
    ((((QueueSession.Runs.prepare 0 _).settle 20).submit _).submit _).settle 20
  obtain ⟨l, hl⟩ := hmixed
  have hrun := (hl.resolve (t := 2) (a := .failed "refused") (by decide) rfl).close.resolve
    (t := 6) (a := .closed) (by decide) rfl
  obtain ⟨hfolded, -⟩ := refines_fold hrun
  exact ⟨_, _, hrun, rfl, hfolded.value, rfl, rfl, by simp, by simp⟩

end JobQueue

end DeviceLock
