import DeviceLock.Proofs.Activation.Lifecycle

namespace DeviceLock.Scheduler

section

variable {ι : Type}

def endsIn (log : List (SchedulerEvent ι)) : List (ActivationReport ι) :=
  (reportsIn log).filter (·.status.isTerminal)

@[simp]
theorem endsIn_published (r : ActivationReport ι) (log : List (SchedulerEvent ι)) :
    endsIn (.published r :: log) =
      if r.status.isTerminal then r :: endsIn log else endsIn log := by
  rw [endsIn, reportsIn_published, List.filter_cons]
  rfl

@[simp]
theorem endsIn_entering (u : ι) (mode : LockMode) (log : List (SchedulerEvent ι)) :
    endsIn (.entering u mode :: log) = endsIn log := rfl

theorem reportsIn_append (new log : List (SchedulerEvent ι)) :
    reportsIn (new ++ log) = reportsIn new ++ reportsIn log :=
  List.filterMap_append

theorem endsIn_append (new log : List (SchedulerEvent ι)) :
    endsIn (new ++ log) = endsIn new ++ endsIn log := by
  rw [endsIn, reportsIn_append, List.filter_append]
  rfl

theorem isTerminal_of_mem_endsIn {r : ActivationReport ι} {log : List (SchedulerEvent ι)}
    (h : r ∈ endsIn log) : r.status.isTerminal = true := (List.mem_filter.mp h).2

def news (s s' : Scheduler ι) : List (SchedulerEvent ι) :=
  s'.log.take (s'.log.length - s.log.length)

theorem news_eq {s s' : Scheduler ι} {new : List (SchedulerEvent ι)}
    (h : s'.log = new ++ s.log) : s.news s' = new := by
  rw [news, h, List.length_append, Nat.add_sub_cancel, List.take_left]

structure Posts (s : Scheduler ι) : Prop where
  history : s.history = (endsIn s.log).take historySize
  version : s.version = (reportsIn s.log).length

theorem take_cons_history (r : ActivationReport ι) (l : List (ActivationReport ι)) :
    (r :: l.take historySize).take historySize = (r :: l).take historySize := by
  simp [historySize, List.take_take]

end

variable {ι : Type} [DecidableEq ι] {units units' : List (ι × LockMode)} {s s' : Scheduler ι}
  {now : Timestamp}

theorem Chronicle.nodup_endsIn {max : Nat} {k : Option Nat} {log : List (SchedulerEvent ι)}
    (h : Chronicle max units k log) : ((endsIn log).map (·.work)).Nodup := by
  have hlive {r : ActivationReport ι} {log : List (SchedulerEvent ι)}
      (hr : (progress r).1.isTerminal = false) : endsIn (.published r :: log) = endsIn log := by
    rw [endsIn_published]
    exact if_neg (Bool.eq_false_iff.mp hr)
  induction h with
  | empty => exact .nil
  | pending _ _ hr ih =>
    rw [hlive (by rw [hr]; rfl)]
    exact ih
  | attempt _ _ hr ih =>
    rw [endsIn_entering, hlive (by rw [hr]; rfl)]
    exact ih
  | @ends units n log r h hr ih =>
    have ht : r.status.isTerminal = true := hr.isTerminal
    rw [endsIn_published, if_pos ht, List.map_cons, List.nodup_cons]
    refine ⟨?_, ih⟩
    intro hmem
    obtain ⟨r', hr', hw⟩ := List.mem_map.mp hmem
    obtain ⟨hreport, ht'⟩ := List.mem_filter.mp hr'
    obtain ⟨-, htold⟩ : Told max (some n) (Scheduler.told log r.work) := by
      simpa using h.told (u := r.work) List.mem_cons_self
    have hprogress : progress r' ∈ Scheduler.told log r.work :=
      List.mem_map_of_mem (List.mem_filter.mpr ⟨hreport, by simp [hw]⟩)
    rw [htold] at hprogress
    exact Bool.false_ne_true ((not_isTerminal_of_started hprogress).symm.trans ht')

structure Continues (s s' : Scheduler ι) : Prop where
  log : s.log <:+ s'.log
  posts : s.Posts → s'.Posts

omit [DecidableEq ι] in
theorem Continues.refl (s : Scheduler ι) : s.Continues s := ⟨List.suffix_rfl, id⟩

omit [DecidableEq ι] in
theorem Continues.trans {s₁ s₂ s₃ : Scheduler ι} (h : s₁.Continues s₂) (h' : s₂.Continues s₃) :
    s₁.Continues s₃ :=
  ⟨h.log.trans h'.log, fun hs => h'.posts (h.posts hs)⟩

omit [DecidableEq ι] in
theorem continues_setSlot (s : Scheduler ι) (w : ActivationWork ι) : s.Continues (s.setSlot w) :=
  ⟨List.suffix_rfl, fun h => ⟨h.history, h.version⟩⟩

theorem continues_publish (s : Scheduler ι) (r : ActivationReport ι) :
    s.Continues (s.publish r) := by
  unfold Scheduler.publish
  split
  · exact .refl s
  · split
    · constructor
      · exact List.suffix_cons _ _
      · intro h
        constructor
        · rw [endsIn_published]
          cases r.status.isTerminal with
          | false => exact h.history
          | true =>
            simp only [if_true, h.history]
            exact take_cons_history _ _
        · simp [h.version]
    · exact .refl s

theorem continues_attempt (s : Scheduler ι) (now : Timestamp) (w : ActivationWork ι) (n : Nat) :
    s.Continues (s.attempt now w n) := by
  refine ((continues_setSlot s { w with phase := .entering n }).trans
    (continues_publish _ ⟨w.id, w.mode, .executing, n, w.lastError, now⟩)).trans ?_
  exact ⟨List.suffix_cons _ _, fun h => ⟨h.history, h.version⟩⟩

theorem continues_fail (s : Scheduler ι) (now : Timestamp) (w : ActivationWork ι) (n : Nat)
    (message : String) : s.Continues (s.fail now w n message) := by
  unfold Scheduler.fail
  dsimp only
  split
  · split
    · exact continues_setSlot s _
    · exact continues_setSlot s _
  · exact (continues_setSlot s _).trans (continues_publish _ _)

theorem continues_step {t : TaskStep} (hs : s.step? now t = some s') : s.Continues s' := by
  unfold step? at hs
  split at hs
  · cases hs
  · split at hs
    · cases hs
      exact continues_attempt s _ _ _
    · cases hs
      exact continues_attempt s _ _ _
    · cases hs
      exact continues_setSlot s _
    · cases hs
      exact continues_fail s _ _ _ _
    · split at hs
      · cases hs
        exact (continues_setSlot s _).trans (continues_publish _ _)
      · cases hs
        exact continues_fail s _ _ _ _
    · cases hs
      exact continues_setSlot s _
    · cases hs
      exact continues_setSlot s _
    · cases hs

theorem continues_cancel (s : Scheduler ι) (now : Timestamp) : s.Continues (s.cancel now) := by
  unfold Scheduler.cancel
  split
  · exact .refl s
  · split
    · exact .refl s
    · exact (continues_setSlot s _).trans (continues_publish _ _)

theorem continues_schedule (s : Scheduler ι) (now : Timestamp) (fresh : ι) (mode : LockMode) :
    s.Continues (s.schedule now fresh mode).1 := by
  by_cases hkept : ∃ w, s.slot = some w ∧ w.mode = mode ∧ w.status.isTerminal = false
  · obtain ⟨w, hw, rfl, ht⟩ := hkept
    rw [schedule_of_live hw ht]
    exact .refl s
  · rw [schedule_eq_renewed hkept]
    exact ((continues_cancel s now).trans (continues_setSlot _ _)).trans (continues_publish _ _)

theorem Operated.posts {config : ActivationConfig} (h : Operated config units s) : s.Posts := by
  induction h with
  | new => exact ⟨rfl, rfl⟩
  | schedule _ now _ mode ih => exact (continues_schedule _ now _ mode).posts ih
  | cancel _ now ih => exact (continues_cancel _ now).posts ih
  | step _ now hs ih => exact (continues_step hs).posts ih

inductive Operates : List (ι × LockMode) → Scheduler ι → List (ι × LockMode) → Scheduler ι → Prop
  | schedule {units : List (ι × LockMode)} {s : Scheduler ι} (now : Timestamp) {fresh : ι}
      (hfresh : fresh ∉ units.map Prod.fst) (mode : LockMode) :
      Operates units s (enlist units (s.schedule now fresh mode).2 mode)
        (s.schedule now fresh mode).1
  | cancel {units : List (ι × LockMode)} {s : Scheduler ι} (now : Timestamp) :
      Operates units s units (s.cancel now)
  | step {units : List (ι × LockMode)} {s s' : Scheduler ι} {t : TaskStep} (now : Timestamp)
      (hs : s.step? now t = some s') : Operates units s units s'

theorem Operated.operates {config : ActivationConfig} (h : Operated config units s)
    (ho : Operates units s units' s') : Operated config units' s' := by
  cases ho with
  | schedule now hfresh mode => exact h.schedule now hfresh mode
  | cancel now => exact h.cancel now
  | step now hs => exact h.step now hs

theorem Operates.log (ho : Operates units s units' s') : s.log <:+ s'.log := by
  cases ho with
  | schedule now _ mode => exact (continues_schedule s now _ mode).log
  | cancel now => exact (continues_cancel s now).log
  | step now hs => exact (continues_step hs).log

end DeviceLock.Scheduler
