import DeviceLock.Activation.Scheduler

namespace DeviceLock.Scheduler

section

variable {ι : Type}

def entries (s : Scheduler ι) : List LockMode :=
  s.log.filterMap fun
    | .entering _ mode => some mode
    | .published _ => none

def Sound (s : Scheduler ι) : Prop :=
  ∀ w, s.slot = some w → w.status.isTerminal = true → w.phase = .stopped

def afterFailure (s : Scheduler ι) (n : Nat) : Phase :=
  if n < s.maxAttempts ∧ (s.config.backoff? n).isSome then .resting n else .stopped

def CanEnter (s : Scheduler ι) (w : ActivationWork ι) : Prop :=
  match w.phase with
  | .starting | .resting _ => True
  | .entering n | .observing n => s.afterFailure n = .resting n
  | .stopped => False

inductive Advances (s : Scheduler ι) (w : ActivationWork ι) : TaskStep → Phase → Prop
  | start (h : w.phase = .starting) : Advances s w .start (.entering 1)
  | wake {n : Nat} (h : w.phase = .resting n) : Advances s w .wake (.entering (n + 1))
  | entered {n : Nat} (h : w.phase = .entering n) : Advances s w .entered (.observing n)
  | rejected {n : Nat} (h : w.phase = .entering n) (message : String) :
      Advances s w (.rejected message) (s.afterFailure n)
  | shown {n : Nat} (h : w.phase = .observing n) : Advances s w (.observed (some w.mode)) .stopped
  | missed {n : Nat} {observed : Option LockMode} (h : w.phase = .observing n)
      (ho : observed ≠ some w.mode) : Advances s w (.observed observed) (s.afterFailure n)
  | panicked {n : Nat} (h : w.phase = .entering n ∨ w.phase = .observing n) :
      Advances s w .panicked .stopped

theorem afterFailure_cases (s : Scheduler ι) (n : Nat) :
    s.afterFailure n = .resting n ∨ s.afterFailure n = .stopped := by
  unfold afterFailure
  split
  · exact .inl rfl
  · exact .inr rfl

theorem canEnter_congr {s s' : Scheduler ι} (h : s'.config = s.config) (w : ActivationWork ι) :
    s'.CanEnter w ↔ s.CanEnter w := by
  have hafter (n : Nat) : s'.afterFailure n = s.afterFailure n := by
    unfold afterFailure maxAttempts
    rw [h]
  unfold CanEnter
  cases w.phase <;> simp only [hafter]

theorem Advances.ne_stopped {s : Scheduler ι} {w : ActivationWork ι} {t : TaskStep} {p : Phase}
    (h : s.Advances w t p) : w.phase ≠ .stopped := by
  intro hp
  cases h <;> simp_all

theorem Advances.canEnter {s : Scheduler ι} {w : ActivationWork ι} {t : TaskStep} {p : Phase}
    (h : s.Advances w t p)
    (hp : (∃ n, p = .entering n) ∨ s.CanEnter { w with phase := p }) : s.CanEnter w := by
  have hfailed {n : Nat} (hn : w.phase = .entering n ∨ w.phase = .observing n)
      (hp : (∃ k, s.afterFailure n = .entering k) ∨
        s.CanEnter { w with phase := s.afterFailure n }) : s.CanEnter w := by
    rcases s.afterFailure_cases n with hr | hr
    · rcases hn with hn | hn <;> simp [CanEnter, hn, hr]
    · simp [CanEnter, hr] at hp
  cases h with
  | start hw => simp [CanEnter, hw]
  | wake hw => simp [CanEnter, hw]
  | entered hw => simpa [CanEnter, hw] using hp
  | rejected hw => exact hfailed (.inl hw) hp
  | shown hw => simp [CanEnter] at hp
  | missed hw => exact hfailed (.inr hw) hp
  | panicked hw => simp [CanEnter] at hp

@[simp]
theorem entries_setSlot (s : Scheduler ι) (w : ActivationWork ι) :
    (s.setSlot w).entries = s.entries := rfl

structure Stepped (s : Scheduler ι) (t : TaskStep) (w w' : ActivationWork ι) (s' : Scheduler ι) :
    Prop where
  before : s.slot = some w
  after : s'.slot = some w'
  mode : w'.mode = w.mode
  config : s'.config = s.config
  advances : s.Advances w t w'.phase
  entries : s'.entries = match w'.phase with
    | .entering _ => w.mode :: s.entries
    | _ => s.entries
  live : w.status.isTerminal = false → w'.status.isTerminal = true → w'.phase = .stopped
  completed : w.status.isTerminal = false → t = .observed (some w.mode) → w'.status = .completed

end

variable {ι : Type} [DecidableEq ι] {s s' : Scheduler ι} {w w' : ActivationWork ι}
  {now : Timestamp} {t : TaskStep} {mode : LockMode}

@[simp]
theorem config_publish (s : Scheduler ι) (r : ActivationReport ι) :
    (s.publish r).config = s.config := by
  unfold publish
  split
  · rfl
  · split <;> rfl

@[simp]
theorem entries_publish (s : Scheduler ι) (r : ActivationReport ι) :
    (s.publish r).entries = s.entries := by
  unfold publish
  split
  · rfl
  · split <;> rfl

theorem slot_publish (s : Scheduler ι) (w : ActivationWork ι) (r : ActivationReport ι)
    (hr : r.work = w.id) :
    ((s.setSlot w).publish r).slot =
      some { w with status := if w.status.isTerminal then w.status else r.status } := by
  unfold publish setSlot
  simp only [hr]
  split <;> simp_all

theorem attempt_slot (s : Scheduler ι) (now : Timestamp) (w : ActivationWork ι) (n : Nat) :
    (s.attempt now w n).slot = some { w with
      phase := .entering n
      status := if w.status.isTerminal then w.status else .executing } := by
  unfold attempt
  exact slot_publish s { w with phase := .entering n } _ rfl

theorem stepped_attempt {n : Nat} (hw : s.slot = some w) (ha : s.Advances w t (.entering n))
    (ht : t ≠ .observed (some w.mode)) : ∃ w', s.Stepped t w w' (s.attempt now w n) := by
  refine ⟨_, hw, attempt_slot s now w n, rfl, ?_, ha, ?_, ?_, fun _ h => absurd h ht⟩
  · simp [attempt, setSlot]
  · have hentries := entries_publish (s.setSlot { w with phase := .entering n })
      ⟨w.id, w.mode, .executing, n, w.lastError, now⟩
    exact congrArg (w.mode :: ·) hentries
  · intro hl h
    simp [hl] at h
    cases h

theorem stepped_fail {n : Nat} (message : String) (hw : s.slot = some w)
    (ha : s.Advances w t (s.afterFailure n)) (ht : t ≠ .observed (some w.mode)) :
    ∃ w', s.Stepped t w w' (s.fail now w n message) := by
  unfold fail
  dsimp only
  by_cases hn : n < s.maxAttempts
  · rw [if_pos hn]
    cases hb : s.config.backoff? n with
    | some d =>
      have hafter : s.afterFailure n = .resting n := by simp [afterFailure, hn, hb]
      refine ⟨_, hw, rfl, rfl, rfl, hafter ▸ ha, rfl, fun hl h => ?_, fun _ h => absurd h ht⟩
      exact absurd h (Bool.eq_false_iff.mp hl)
    | none =>
      have hafter : s.afterFailure n = .stopped := by simp [afterFailure, hb]
      exact ⟨_, hw, rfl, rfl, rfl, hafter ▸ ha, rfl, fun _ _ => rfl, fun _ h => absurd h ht⟩
  · rw [if_neg hn]
    have hafter : s.afterFailure n = .stopped := by simp [afterFailure, hn]
    refine ⟨_, hw, slot_publish _ _ _ rfl, rfl, by simp [setSlot], hafter ▸ ha, by simp,
      fun _ _ => rfl, fun _ h => absurd h ht⟩

theorem step_cases (h : s.step? now t = some s') : ∃ w w', s.Stepped t w w' s' := by
  unfold step? at h
  split at h
  · cases h
  rename_i w hw
  refine ⟨w, ?_⟩
  split at h
  · rename_i hp
    cases h
    exact stepped_attempt hw (.start hp) (by simp)
  · rename_i n hp
    cases h
    exact stepped_attempt hw (.wake hp) (by simp)
  · rename_i n hp
    cases h
    exact ⟨_, hw, rfl, rfl, rfl, .entered hp, rfl, fun hl h => absurd h (Bool.eq_false_iff.mp hl),
      fun _ h => by cases h⟩
  · rename_i n message hp
    cases h
    exact stepped_fail _ hw (.rejected hp message) (by simp)
  · rename_i n observed hp
    split at h
    · rename_i ho
      subst ho
      cases h
      refine ⟨_, hw, slot_publish _ _ _ rfl, rfl, by simp [setSlot], .shown hp, by simp,
        fun _ _ => rfl, fun hl _ => ?_⟩
      simp [hl]
    · rename_i ho
      cases h
      exact stepped_fail _ hw (.missed hp ho) fun he => ho (TaskStep.observed.inj he)
  · rename_i n hp
    cases h
    exact ⟨_, hw, rfl, rfl, rfl, .panicked (.inl hp), rfl, fun _ _ => rfl, fun _ h => by cases h⟩
  · rename_i n hp
    cases h
    exact ⟨_, hw, rfl, rfl, rfl, .panicked (.inr hp), rfl, fun _ _ => rfl, fun _ h => by cases h⟩
  · cases h

omit [DecidableEq ι] in
theorem Stepped.sound (h : s.Stepped t w w' s') (hs : s.Sound) :
    w.status.isTerminal = false ∧ s'.Sound := by
  have hlive : w.status.isTerminal = false := by
    rw [Bool.eq_false_iff]
    exact fun ht => h.advances.ne_stopped (hs w h.before ht)
  refine ⟨hlive, fun v hv ht => ?_⟩
  obtain rfl := Option.some.inj (h.after.symm.trans hv)
  exact h.live hlive ht

theorem cancel_cases (s : Scheduler ι) (now : Timestamp) :
    (s.cancel now).config = s.config ∧ (s.cancel now).entries = s.entries ∧
      ∀ w', (s.cancel now).slot = some w' →
        w'.status.isTerminal = true ∧ ∃ w, s.slot = some w ∧
          (w.status.isTerminal = true ∧ w' = w ∨
            w.status.isTerminal = false ∧ w'.phase = .stopped) := by
  unfold cancel
  split
  · rename_i hw
    exact ⟨rfl, rfl, fun w' h => by rw [hw] at h; cases h⟩
  rename_i w hw
  split
  · rename_i ht
    refine ⟨rfl, rfl, fun w' h => ?_⟩
    obtain rfl := Option.some.inj (hw.symm.trans h)
    exact ⟨ht, w, hw, .inl ⟨ht, rfl⟩⟩
  · rename_i ht
    rw [Bool.not_eq_true] at ht
    refine ⟨by simp [setSlot], by simp, fun w' h => ?_⟩
    rw [slot_publish _ _ _ rfl] at h
    obtain rfl := Option.some.inj h
    refine ⟨?_, w, hw, .inr ⟨ht, rfl⟩⟩
    simp only [ht, Bool.false_eq_true, if_false]
    rfl

theorem Sound.cancel (h : s.Sound) (now : Timestamp) :
    ∀ w, (s.cancel now).slot = some w → w.phase = .stopped := by
  intro w' hw'
  obtain ⟨-, w, hw, ⟨ht, rfl⟩ | ⟨-, hp⟩⟩ := (cancel_cases s now).2.2 w' hw'
  · exact h w' hw ht
  · exact hp

theorem schedule_cases (s : Scheduler ι) (now : Timestamp) (fresh : ι) (mode : LockMode) :
    (s.schedule now fresh mode).1.config = s.config ∧
      (s.schedule now fresh mode).1.entries = s.entries ∧
        ∃ w, (s.schedule now fresh mode).1.slot = some w ∧ w.mode = mode ∧
          w.status.isTerminal = false ∧
            (s.slot = some w ∨ w.phase = .starting) := by
  obtain ⟨hc, he, -⟩ := cancel_cases s now
  have hreplace : (((s.cancel now).setSlot { id := fresh, mode }).publish
      ⟨fresh, mode, .pending, 0, none, now⟩).slot = some { id := fresh, mode } :=
    slot_publish _ _ _ rfl
  unfold schedule
  dsimp only
  split
  · exact ⟨by simpa [setSlot] using hc, by simpa using he, _, hreplace, rfl, rfl, .inr rfl⟩
  · rename_i w hw
    split
    · rename_i hk
      exact ⟨rfl, rfl, w, hw, hk.1, hk.2, .inl hw⟩
    · exact ⟨by simpa [setSlot] using hc, by simpa using he, _, hreplace, rfl, rfl, .inr rfl⟩

theorem Sound.schedule (now : Timestamp) (fresh : ι) (mode : LockMode) :
    (s.schedule now fresh mode).1.Sound := by
  obtain ⟨-, -, w, hw, -, ht, -⟩ := schedule_cases s now fresh mode
  intro v hv h
  obtain rfl := Option.some.inj (hw.symm.trans hv)
  rw [ht] at h
  cases h

def OnlyEnters (s : Scheduler ι) (mode : LockMode) : Prop :=
  ∀ w, s.slot = some w → s.CanEnter w → w.mode = mode ∧ mode.isActive = true

theorem OnlyEnters.step (h : s.OnlyEnters mode) (hs : s.step? now t = some s') :
    s'.OnlyEnters mode ∧
      (s'.entries = s.entries ∨ s'.entries = mode :: s.entries ∧ mode.isActive = true) := by
  obtain ⟨w, w', hstep⟩ := step_cases hs
  refine ⟨fun v hv hcan => ?_, ?_⟩
  · obtain rfl := Option.some.inj (hstep.after.symm.trans hv)
    rw [hstep.mode]
    exact h w hstep.before
      (hstep.advances.canEnter (.inr ((canEnter_congr hstep.config _).mp hcan)))
  · have he := hstep.entries
    split at he
    · rename_i n hp
      obtain ⟨rfl, hactive⟩ := h w hstep.before (hstep.advances.canEnter (.inl ⟨n, hp⟩))
      exact .inr ⟨he, hactive⟩
    · exact .inl he

theorem Sound.onlyEnters_cancel (h : s.Sound) (now : Timestamp) (mode : LockMode) :
    (s.cancel now).OnlyEnters mode := by
  intro w hw hcan
  simp [CanEnter, h.cancel now w hw] at hcan

theorem onlyEnters_schedule (s : Scheduler ι) (now : Timestamp) (fresh : ι)
    (h : mode.isActive = true) : (s.schedule now fresh mode).1.OnlyEnters mode := by
  obtain ⟨-, -, w, hw, hm, -, -⟩ := schedule_cases s now fresh mode
  intro v hv _
  obtain rfl := Option.some.inj (hw.symm.trans hv)
  exact ⟨hm, h⟩

inductive Tasks (s : Scheduler ι) : Scheduler ι → Prop
  | refl : Tasks s s
  | step {s₁ s' : Scheduler ι} {now : Timestamp} {t : TaskStep} (h : Tasks s s₁)
      (hs : s₁.step? now t = some s') : Tasks s s'

theorem entries_attempt (s : Scheduler ι) (now : Timestamp) (w : ActivationWork ι) (n : Nat) :
    (s.attempt now w n).entries = w.mode :: s.entries := by
  have hentries := entries_publish (s.setSlot { w with phase := .entering n })
    ⟨w.id, w.mode, .executing, n, w.lastError, now⟩
  exact congrArg (w.mode :: ·) hentries

theorem fail_of_resting {n : Nat} (h : s.afterFailure n = .resting n) (now : Timestamp)
    (w : ActivationWork ι) (message : String) :
    s.fail now w n message =
      s.setSlot { w with lastError := some message, phase := .resting n } := by
  unfold afterFailure at h
  split at h
  · rename_i hn
    obtain ⟨d, hd⟩ := Option.isSome_iff_exists.mp hn.2
    simp [fail, hn.1, hd]
  · cases h

theorem exists_entry (hw : s.slot = some w) (h : s.CanEnter w) (now : Timestamp) :
    ∃ s', s.Tasks s' ∧ s'.entries = w.mode :: s.entries := by
  have hwake {s₁ : Scheduler ι} {v : ActivationWork ι} {n : Nat} (h₁ : s.Tasks s₁)
      (hv : s₁.slot = some v) (hp : v.phase = .resting n) :
      ∃ s', s.Tasks s' ∧ s'.entries = v.mode :: s₁.entries := by
    refine ⟨s₁.attempt now v (n + 1), h₁.step (?_ : s₁.step? now .wake = _), entries_attempt ..⟩
    simp [step?, hv, hp]
  have hfails {n : Nat} {t : TaskStep} {message : String} (hr : s.afterFailure n = .resting n)
      (hs : s.step? now t = some (s.fail now w n message)) :
      ∃ s', s.Tasks s' ∧ s'.entries = w.mode :: s.entries := by
    rw [fail_of_resting hr] at hs
    have hentry := hwake (.step .refl hs) rfl rfl
    exact hentry
  unfold CanEnter at h
  split at h
  · rename_i hp
    refine ⟨s.attempt now w 1, .step .refl (?_ : s.step? now .start = _), entries_attempt ..⟩
    simp [step?, hw, hp]
  · rename_i n hp
    exact hwake .refl hw hp
  · rename_i n hp
    have hs : s.step? now (.rejected "") = some (s.fail now w n (entryRejected "")) := by
      simp [step?, hw, hp]
    exact hfails h hs
  · rename_i n hp
    have hs : s.step? now (.observed none) = some (s.fail now w n (notInEffect w.mode none)) := by
      simp [step?, hw, hp]
    exact hfails h hs
  · exact h.elim

end DeviceLock.Scheduler
