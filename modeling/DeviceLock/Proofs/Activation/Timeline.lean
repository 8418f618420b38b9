import DeviceLock.Proofs.Activation.Publication

/-!
Units of work on the clock. A `Plan` says when the attempts of a unit are made and what is reported
of them, and `Timeline.Timed` are the runs in which a task takes each step when it is due.
-/

namespace DeviceLock

open Scheduler

structure Trial where
  rejection : Option String
  observed : Option LockMode
  entering : Nat
  observing : Nat

def ActivationConfig.Fits (c : ActivationConfig) : Prop :=
  (c.backoff? (max c.maxAttempts.toNat 1 - 1)).isSome = true

theorem ActivationConfig.Fits.backoff {c : ActivationConfig} (h : c.Fits) {n : Nat}
    (hn : n < max c.maxAttempts.toNat 1) : c.backoff? n = some (c.retryDelay.toNat * n) := by
  have hle : c.retryDelay.toNat * n ≤
      c.retryDelay.toNat * (max c.maxAttempts.toNat 1 - 1) :=
    Nat.mul_le_mul_left _ (Nat.le_sub_one_of_lt hn)
  unfold Fits backoff? at h
  unfold backoff?
  dsimp only at h ⊢
  split at h
  · rename_i hlt
    exact if_pos (Nat.lt_of_le_of_lt (Nat.div_le_div_right hle) hlt)
  · cases h

def Trial.failure? (t : Trial) (mode : LockMode) : Option String :=
  match t.rejection with
  | some message => some (entryRejected message)
  | none => if t.observed = some mode then none else some (notInEffect mode t.observed)

def Trial.time (t : Trial) : Nat :=
  match t.rejection with
  | some _ => t.entering
  | none => t.entering + t.observing

structure TimedReport where
  time : Nat
  status : ActivationStatus
  attempts : Nat
  lastError : Option String

structure Plan where
  mode : LockMode
  max : Nat
  delay : Nat
  trial : Nat → Trial

def ActivationConfig.plan (c : ActivationConfig) (mode : LockMode) (trial : Nat → Trial) : Plan :=
  ⟨mode, max c.maxAttempts.toNat 1, c.retryDelay.toNat, trial⟩

namespace Plan

def failure? (p : Plan) (n : Nat) : Option String := (p.trial n).failure? p.mode

def begins (p : Plan) (start : Nat) : Nat → Nat
  | 0 => start
  | n + 1 => p.begins start n + (p.trial (n + 1)).time + p.delay * (n + 1)

def judged (p : Plan) (start n : Nat) : Nat := p.begins start n + (p.trial (n + 1)).time

def carried (p : Plan) : Nat → Option String
  | 0 => none
  | n + 1 => p.failure? (n + 1)

def reports (p : Plan) (asked start : Nat) : Nat → List TimedReport
  | 0 => [⟨asked, .pending, 0, none⟩]
  | n + 1 => ⟨p.begins start n, .executing, n + 1, p.carried n⟩ :: p.reports asked start n

def entries (p : Plan) (start : Nat) : Nat → List (Nat × LockMode)
  | 0 => []
  | n + 1 => (p.begins start n, p.mode) :: p.entries start n

def final (p : Plan) (start n : Nat) : TimedReport :=
  match p.failure? (n + 1) with
  | none => ⟨p.judged start n, .completed, n + 1, none⟩
  | some message => ⟨p.judged start n, .failed, p.max, some message⟩

def Failing (p : Plan) (n : Nat) : Prop := ∀ i, 0 < i → i < n → p.failure? i ≠ none

/-- Attempt `k` is the first that does not fail, or the last that is allowed. -/
structure Last (p : Plan) (k : Nat) : Prop where
  pos : 0 < k
  le : k ≤ p.max
  failing : p.Failing k
  ends : p.failure? k = none ∨ k = p.max

def Underway (p : Plan) (k : Nat) (reports : List TimedReport) (entries : List (Nat × LockMode)) :
    Prop :=
  ∃ asked start n, n ≤ k ∧ reports = p.reports asked start n ∧ entries = p.entries start n

def Ended (p : Plan) (k : Nat) (reports : List TimedReport) (entries : List (Nat × LockMode)) :
    Prop :=
  ∃ asked start n, k = n + 1 ∧ reports = p.final start n :: p.reports asked start k ∧
    entries = p.entries start k

/-- Where the task stands that has begun this many attempts: since when, in which phase, and with
which failure to tell. -/
inductive Stands (p : Plan) (start : Nat) : Nat → Nat → Phase → Option String → Prop
  | starting (since : Nat) : Stands p start 0 since .starting none
  | entering {n : Nat} (hn : n < p.max) :
      Stands p start (n + 1) (p.begins start n) (.entering (n + 1)) (p.carried n)
  | observing {n : Nat} (hn : n < p.max) (ht : (p.trial (n + 1)).rejection = none) :
      Stands p start (n + 1) (p.begins start n + (p.trial (n + 1)).entering)
        (.observing (n + 1)) (p.carried n)
  | resting {n : Nat} (hn : n + 1 < p.max) (hf : p.failure? (n + 1) ≠ none) :
      Stands p start (n + 1) (p.judged start n) (.resting (n + 1)) (p.carried (n + 1))

variable {p : Plan} {k n start since : Nat}

theorem failing_one : p.Failing 1 := fun _ hi hlt => absurd hlt (by omega)

theorem Failing.succ (h : p.Failing n) (hf : p.failure? n ≠ none) : p.Failing (n + 1) := by
  intro i hi hlt
  rcases Nat.lt_succ_iff_lt_or_eq.mp hlt with hlt | rfl
  · exact h i hi hlt
  · exact hf

theorem exists_last (hpos : 0 < p.max) : ∃ k, p.Last k := by
  have hfirst (m : Nat) : p.Failing (m + 1) ∨
      ∃ k, 0 < k ∧ k ≤ m ∧ p.Failing k ∧ p.failure? k = none := by
    induction m with
    | zero => exact .inl failing_one
    | succ m ih =>
      rcases ih with hfailing | ⟨k, hk, hle, h⟩
      · by_cases hm : p.failure? (m + 1) = none
        · exact .inr ⟨m + 1, Nat.succ_pos m, Nat.le_refl _, hfailing, hm⟩
        · exact .inl (hfailing.succ hm)
      · exact .inr ⟨k, hk, Nat.le_succ_of_le hle, h⟩
  obtain ⟨m, hm⟩ := Nat.exists_eq_succ_of_ne_zero (Nat.ne_of_gt hpos)
  rcases hfirst m with hfailing | ⟨k, hk, hle, hfailing, hnone⟩
  · exact ⟨p.max, hpos, Nat.le_refl _, hm ▸ hfailing, .inr rfl⟩
  · exact ⟨k, hk, by omega, hfailing, .inl hnone⟩

theorem Last.le_of_failing (h : p.Last k) (hn : n ≤ p.max) (hfailing : p.Failing n) : n ≤ k := by
  apply Nat.not_lt.mp
  intro hlt
  rcases h.ends with hnone | hmax
  · exact hfailing k h.pos hlt hnone
  · omega

theorem not_cancelled_of_mem_reports {asked : Nat} {r : TimedReport}
    (h : r ∈ p.reports asked start n) : r.status ≠ .cancelled := by
  induction n with
  | zero =>
    rw [List.mem_singleton.mp h]
    simp
  | succ n ih =>
    rcases List.mem_cons.mp h with rfl | h
    · simp
    · exact ih h

theorem not_cancelled_final (p : Plan) (start n : Nat) : (p.final start n).status ≠ .cancelled := by
  unfold final
  split <;> simp

theorem Stands.le {phase : Phase} {error : Option String}
    (h : p.Stands start n since phase error) : n ≤ p.max := by
  cases h <;> omega

end Plan

def Phase.left (max : Nat) : Phase → Nat
  | .starting => 3 * max
  | .entering n => 3 * (max - n) + 2
  | .observing n => 3 * (max - n) + 1
  | .resting n => 3 * (max - n)
  | .stopped => 0

namespace Scheduler

section

variable {ι : Type} {s : Scheduler ι} {w : ActivationWork ι} {units : List (ι × LockMode)}
  {k : Option Nat}

theorem Counts.left_le {max n : Nat} {phase : Phase} (h : Counts max n phase) :
    phase.left max ≤ 3 * max := by
  cases h <;> simp only [Phase.left] <;> omega

theorem Advances.left_lt {t : TaskStep} {phase : Phase} {n : Nat} (h : s.Advances w t phase)
    (hcounts : Counts s.maxAttempts n w.phase) :
    phase.left s.maxAttempts < w.phase.left s.maxAttempts := by
  have hpos : 0 < s.maxAttempts := Nat.lt_of_lt_of_le Nat.zero_lt_one (Nat.le_max_right _ _)
  have hfailed (n : Nat) : (s.afterFailure n).left s.maxAttempts ≤ 3 * (s.maxAttempts - n) := by
    rcases s.afterFailure_cases n with hr | hr
    · rw [hr]
      exact Nat.le_refl _
    · rw [hr]
      exact Nat.zero_le _
  cases h with
  | start hp =>
    rw [hp]
    simp only [Phase.left]
    omega
  | wake hp =>
    rw [hp] at hcounts ⊢
    cases hcounts
    simp only [Phase.left]
    omega
  | entered hp =>
    rw [hp]
    exact Nat.lt_succ_self _
  | rejected hp =>
    rw [hp]
    exact Nat.lt_of_le_of_lt (hfailed _) (Nat.lt_add_of_pos_right (by decide))
  | shown hp =>
    rw [hp]
    exact Nat.succ_pos _
  | missed hp =>
    rw [hp]
    exact Nat.lt_of_le_of_lt (hfailed _) (Nat.lt_succ_self _)
  | panicked hp =>
    rcases hp with hp | hp
    · rw [hp]
      exact Nat.succ_pos _
    · rw [hp]
      exact Nat.succ_pos _

def left (s : Scheduler ι) : Nat := s.slot.elim 0 fun w => w.phase.left s.maxAttempts

theorem Records.left_le (h : s.Records units k) : s.left ≤ 3 * s.maxAttempts := by
  have hslot := h.slot
  unfold left
  cases hw : s.slot with
  | none => exact Nat.zero_le _
  | some w =>
    rw [hw] at hslot
    cases hslot with
    | ended _ _ hp => simp [hp, Phase.left]
    | live _ _ hp => exact hp.left_le

end

theorem Records.left_lt {ι : Type} [DecidableEq ι] {s s' : Scheduler ι}
    {units : List (ι × LockMode)} {k : Option Nat} {t : TaskStep} {now : Timestamp}
    (h : s.Records units k) (hs : s.step? now t = some s') : s'.left < s.left := by
  obtain ⟨w, w', hstep⟩ := step_cases hs
  have hmax : s'.maxAttempts = s.maxAttempts := by
    unfold maxAttempts
    rw [hstep.config]
  have hslot := h.slot
  rw [hstep.before] at hslot
  unfold left
  rw [hstep.before, hstep.after, hmax]
  cases hslot with
  | ended _ _ hp => exact absurd hp hstep.advances.ne_stopped
  | live _ _ hp => exact hstep.advances.left_lt hp

end Scheduler

section

variable {ι : Type}

def SchedulerEvent.work : SchedulerEvent ι → ι
  | .published r => r.work
  | .entering u _ => u

structure Timeline (ι : Type) where
  scheduler : Scheduler ι
  since : Nat := 0
  log : List (Nat × SchedulerEvent ι) := []

def Timeline.goOn (x : Timeline ι) (time : Nat) (s : Scheduler ι) : Timeline ι :=
  { x with scheduler := s, log := (x.scheduler.news s).map (time, ·) ++ x.log }

def Timeline.tick (x : Timeline ι) (time : Nat) (s : Scheduler ι) : Timeline ι :=
  { x.goOn time s with since := time }

/-- The step that the task takes next, and when: the activator comes to its end, and the wait after
a failure lasts as long as it should. -/
inductive Due (config : ActivationConfig) (trial : Nat → Trial) (w : ActivationWork ι)
    (since : Nat) : TaskStep → Nat → Prop
  | start (hp : w.phase = .starting) (time : Nat) : Due config trial w since .start time
  | entered {n : Nat} (hp : w.phase = .entering n) (ht : (trial n).rejection = none) :
      Due config trial w since .entered (since + (trial n).entering)
  | rejected {n : Nat} {message : String} (hp : w.phase = .entering n)
      (ht : (trial n).rejection = some message) :
      Due config trial w since (.rejected message) (since + (trial n).entering)
  | observed {n : Nat} (hp : w.phase = .observing n) :
      Due config trial w since (.observed (trial n).observed) (since + (trial n).observing)
  | wake {n d : Nat} (hp : w.phase = .resting n) (hd : config.backoff? n = some d) :
      Due config trial w since .wake (since + d)

theorem Due.ne_stopped {config : ActivationConfig} {trial : Nat → Trial} {w : ActivationWork ι}
    {since time : Nat} {t : TaskStep} (h : Due config trial w since t time) :
    w.phase ≠ .stopped := by
  intro hstopped
  cases h <;> simp_all

end

namespace Timeline

variable {ι : Type} [DecidableEq ι]

def heard (log : List (Nat × SchedulerEvent ι)) (u : ι) : List TimedReport :=
  log.filterMap fun
    | (time, .published r) =>
      if r.work = u then some ⟨time, r.status, r.attempts, r.lastError⟩ else none
    | (_, .entering _ _) => none

def entries (log : List (Nat × SchedulerEvent ι)) (u : ι) : List (Nat × LockMode) :=
  log.filterMap fun
    | (time, .entering v mode) => if v = u then some (time, mode) else none
    | (_, .published _) => none

def Cancelled (log : List (Nat × SchedulerEvent ι)) (u : ι) : Prop :=
  ∃ r ∈ heard log u, r.status = .cancelled

inductive Ticks (config : ActivationConfig) (trial : ι → Nat → Trial) (x : Timeline ι) :
    Timeline ι → Prop
  | step {w : ActivationWork ι} {s : Scheduler ι} {t : TaskStep} {time : Nat}
      (hw : x.scheduler.slot = some w) (hdue : Due config (trial w.id) w x.since t time)
      (now : Timestamp) (hs : x.scheduler.step? now t = some s) :
      Ticks config trial x (x.tick time s)

inductive Timed (config : ActivationConfig) (trial : ι → Nat → Trial) :
    List (ι × LockMode) → Timeline ι → Prop
  | new : Timed config trial [] { scheduler := { config } }
  | schedule {units : List (ι × LockMode)} {x : Timeline ι} (h : Timed config trial units x)
      (time : Nat) (now : Timestamp) {fresh : ι} (hfresh : fresh ∉ units.map Prod.fst)
      (mode : LockMode) :
      Timed config trial (enlist units (x.scheduler.schedule now fresh mode).2 mode)
        (x.goOn time (x.scheduler.schedule now fresh mode).1)
  | cancel {units : List (ι × LockMode)} {x : Timeline ι} (h : Timed config trial units x)
      (time : Nat) (now : Timestamp) :
      Timed config trial units (x.goOn time (x.scheduler.cancel now))
  | tick {units : List (ι × LockMode)} {x x' : Timeline ι} (h : Timed config trial units x)
      (ht : Ticks config trial x x') : Timed config trial units x'

variable {x : Timeline ι} {u : ι} {s : Scheduler ι}

@[simp]
theorem heard_published (time : Nat) (r : ActivationReport ι)
    (log : List (Nat × SchedulerEvent ι)) (u : ι) :
    heard ((time, .published r) :: log) u =
      if r.work = u then ⟨time, r.status, r.attempts, r.lastError⟩ :: heard log u
      else heard log u := by
  by_cases hu : r.work = u <;> simp [heard, hu]

@[simp]
theorem heard_entering (time : Nat) (v : ι) (mode : LockMode)
    (log : List (Nat × SchedulerEvent ι)) (u : ι) :
    heard ((time, .entering v mode) :: log) u = heard log u := rfl

@[simp]
theorem entries_published (time : Nat) (r : ActivationReport ι)
    (log : List (Nat × SchedulerEvent ι)) (u : ι) :
    entries ((time, .published r) :: log) u = entries log u := rfl

@[simp]
theorem entries_entering (time : Nat) (v : ι) (mode : LockMode)
    (log : List (Nat × SchedulerEvent ι)) (u : ι) :
    entries ((time, .entering v mode) :: log) u =
      if v = u then (time, mode) :: entries log u else entries log u := by
  by_cases hu : v = u <;> simp [entries, hu]

theorem append_of_ne (new : List (SchedulerEvent ι)) (h : ∀ e ∈ new, e.work ≠ u) (time : Nat)
    (log : List (Nat × SchedulerEvent ι)) :
    heard (new.map (time, ·) ++ log) u = heard log u ∧
      entries (new.map (time, ·) ++ log) u = entries log u := by
  induction new with
  | nil => exact ⟨rfl, rfl⟩
  | cons e new ih =>
    obtain ⟨hheard, hentries⟩ := ih fun e he => h e (List.mem_cons_of_mem _ he)
    have hne := h e List.mem_cons_self
    cases e with
    | published r =>
      have hr : r.work ≠ u := hne
      simp [hr, hheard, hentries]
    | entering v mode =>
      have hv : v ≠ u := hne
      simp [hv, hheard, hentries]

omit [DecidableEq ι] in
theorem log_goOn (new : List (SchedulerEvent ι)) (h : s.log = new ++ x.scheduler.log) (time : Nat) :
    (x.goOn time s).log = new.map (time, ·) ++ x.log := by
  rw [goOn, news_eq h]

omit [DecidableEq ι] in
theorem goOn_self (x : Timeline ι) (time : Nat) : x.goOn time x.scheduler = x := by
  simp [goOn, news]

end Timeline

end DeviceLock
