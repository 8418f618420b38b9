import DeviceLock.Proofs.Activation.Attempts
import DeviceLock.Proofs.Activation.Chronicle

namespace DeviceLock.Scheduler

theorem nonempty_timestamp : Nonempty Timestamp :=
  ⟨⟨⟨1970, 1, 1, by decide⟩, ⟨0, 0, by decide, by decide⟩⟩⟩

variable {ι : Type} [DecidableEq ι]

inductive Counts (max : Nat) : Nat → Phase → Prop
  | starting : Counts max 0 .starting
  | entering {n : Nat} (hpos : 0 < n) (hn : n ≤ max) : Counts max n (.entering n)
  | observing {n : Nat} (hpos : 0 < n) (hn : n ≤ max) : Counts max n (.observing n)
  | resting {n : Nat} (hpos : 0 < n) (hn : n < max) : Counts max n (.resting n)
  | stopped {n : Nat} (hpos : 0 < n) (hn : n ≤ max) : Counts max n .stopped

inductive Holds (max : Nat) :
    List (ι × LockMode) → Option Nat → Option (ActivationWork ι) → Prop
  | nothing : Holds max [] none none
  | ended {w : ActivationWork ι} {u : ι} {mode : LockMode} {units : List (ι × LockMode)}
      (hw : w.id = u ∧ w.mode = mode) (ht : w.status.isTerminal = true) (hp : w.phase = .stopped) :
      Holds max ((u, mode) :: units) none (some w)
  | live {w : ActivationWork ι} {u : ι} {mode : LockMode} {units : List (ι × LockMode)} {n : Nat}
      (hw : w.id = u ∧ w.mode = mode) (ht : w.status.isTerminal = false)
      (hp : Counts max n w.phase) : Holds max ((u, mode) :: units) (some n) (some w)

structure Records (s : Scheduler ι) (units : List (ι × LockMode)) (k : Option Nat) : Prop where
  log : Chronicle s.maxAttempts units k s.log
  slot : Holds s.maxAttempts units k s.slot
  outcomes : s.outcomes = endings s.log

def enlist (units : List (ι × LockMode)) (work : ι) (mode : LockMode) : List (ι × LockMode) :=
  if work ∈ units.map Prod.fst then units else (work, mode) :: units

/-- A scheduler after any calls and any steps of its tasks, with the units that it has handed out,
newest first. -/
inductive Operated (config : ActivationConfig) : List (ι × LockMode) → Scheduler ι → Prop
  | new : Operated config [] { config }
  | schedule {units : List (ι × LockMode)} {s : Scheduler ι} (h : Operated config units s)
      (now : Timestamp) {fresh : ι} (hfresh : fresh ∉ units.map Prod.fst) (mode : LockMode) :
      Operated config (enlist units (s.schedule now fresh mode).2 mode)
        (s.schedule now fresh mode).1
  | cancel {units : List (ι × LockMode)} {s : Scheduler ι} (h : Operated config units s)
      (now : Timestamp) : Operated config units (s.cancel now)
  | step {units : List (ι × LockMode)} {s s' : Scheduler ι} {t : TaskStep}
      (h : Operated config units s) (now : Timestamp) (hs : s.step? now t = some s') :
      Operated config units s'

variable {units : List (ι × LockMode)} {s s' : Scheduler ι} {w : ActivationWork ι} {n : Nat}
  {now : Timestamp}

@[simp]
theorem maxAttempts_publish (s : Scheduler ι) (r : ActivationReport ι) :
    (s.publish r).maxAttempts = s.maxAttempts := by
  simp [maxAttempts]

omit [DecidableEq ι] in
@[simp]
theorem maxAttempts_setSlot (s : Scheduler ι) (w : ActivationWork ι) :
    (s.setSlot w).maxAttempts = s.maxAttempts := rfl

theorem log_publish (s : Scheduler ι) {r : ActivationReport ι}
    (ht : w.status.isTerminal = false) (hr : r.work = w.id) :
    ((s.setSlot w).publish r).log = .published r :: s.log := by
  simp [publish, setSlot, ht, hr]

theorem slot_publish_live (s : Scheduler ι) {r : ActivationReport ι}
    (ht : w.status.isTerminal = false) (hr : r.work = w.id) :
    ((s.setSlot w).publish r).slot = some { w with status := r.status } := by
  simp [slot_publish s w r hr, ht]

theorem log_cancel (hw : s.slot = some w) (ht : w.status.isTerminal = false) (now : Timestamp) :
    (s.cancel now).log = .published ⟨w.id, w.mode, .cancelled, 0, none, now⟩ :: s.log := by
  simp only [cancel, hw, ht, Bool.false_eq_true, if_false]
  exact log_publish (w := { w with phase := .stopped }) s ht rfl

theorem cancel_eq_self (h : ∀ w, s.slot = some w → w.status.isTerminal = true) (now : Timestamp) :
    s.cancel now = s := by
  unfold cancel
  split
  · rfl
  · rename_i w hw
    exact if_pos (h w hw)

theorem log_attempt (s : Scheduler ι) (ht : w.status.isTerminal = false) (now : Timestamp)
    (n : Nat) : (s.attempt now w n).log =
      .entering w.id w.mode ::
        .published ⟨w.id, w.mode, .executing, n, w.lastError, now⟩ :: s.log := by
  simp [attempt, publish, setSlot, ht]

theorem outcomes_publish (h : s.outcomes = endings s.log) (r : ActivationReport ι) :
    (s.publish r).outcomes = endings (s.publish r).log := by
  unfold publish
  split
  · exact h
  · split
    · unfold endings at *
      cases ht : r.status.isTerminal <;> simp [ht, h]
    · exact h

omit [DecidableEq ι] in
theorem Records.move (h : s.Records ((w.id, w.mode) :: units) (some n))
    (ht : w.status.isTerminal = false) (hp : Counts s.maxAttempts n w.phase) :
    (s.setSlot w).Records ((w.id, w.mode) :: units) (some n) :=
  ⟨h.log, .live ⟨rfl, rfl⟩ ht hp, h.outcomes⟩

namespace Records

theorem publish (h : s.Records ((w.id, w.mode) :: units) (some n))
    (ht : w.status.isTerminal = false) (hp : w.phase = .stopped) {r : ActivationReport ι}
    (hw : r.work = w.id) (hm : r.mode = w.mode) (hr : Ends s.maxAttempts n (progress r)) :
    ((s.setSlot w).publish r).Records ((w.id, w.mode) :: units) none := by
  refine ⟨?_, ?_, outcomes_publish (s := s.setSlot w) h.outcomes r⟩
  · rw [maxAttempts_publish, maxAttempts_setSlot, log_publish s ht hw, ← hw, ← hm]
    have hc := h.log
    rw [← hw, ← hm] at hc
    exact hc.ends hr
  · rw [slot_publish_live s ht hw]
    exact .ended ⟨rfl, rfl⟩ hr.isTerminal hp

theorem attempt (h : s.Records ((w.id, w.mode) :: units) (some n))
    (ht : w.status.isTerminal = false) (hn : n < s.maxAttempts) (now : Timestamp) :
    (s.attempt now w (n + 1)).Records ((w.id, w.mode) :: units) (some (n + 1)) := by
  have hmax : (s.attempt now w (n + 1)).maxAttempts = s.maxAttempts := by
    simp [Scheduler.attempt, maxAttempts, setSlot]
  refine ⟨?_, ?_, outcomes_publish (s := s.setSlot _) h.outcomes _⟩
  · rw [hmax, log_attempt s ht]
    exact .attempt (r := ⟨w.id, w.mode, .executing, n + 1, w.lastError, now⟩) h.log hn rfl
  · rw [hmax, attempt_slot]
    exact .live ⟨rfl, rfl⟩ (by rw [ht]; rfl) (.entering (Nat.succ_pos n) hn)

theorem fail (h : s.Records ((w.id, w.mode) :: units) (some n))
    (ht : w.status.isTerminal = false) (hpos : 0 < n) (hn : n ≤ s.maxAttempts) (now : Timestamp)
    (message : String) : ∃ k, (s.fail now w n message).Records ((w.id, w.mode) :: units) k := by
  unfold Scheduler.fail
  dsimp only
  split
  · rename_i hlt
    split
    · exact ⟨_, move (w := { w with lastError := _, phase := .resting n }) h ht
        (.resting hpos hlt)⟩
    · exact ⟨_, move (w := { w with lastError := _, phase := .stopped }) h ht
        (.stopped hpos hn)⟩
  · rename_i hlt
    exact ⟨_, publish (w := { w with lastError := some message, phase := .stopped }) h ht rfl
      rfl rfl (.failed (Nat.le_antisymm hn (Nat.not_lt.mp hlt)))⟩

theorem step {k : Option Nat} {t : TaskStep} (h : s.Records units k)
    (hs : s.step? now t = some s') : ∃ k', s'.Records units k' := by
  obtain ⟨w, w', hstep⟩ := step_cases hs
  have hslot := h.slot
  rw [hstep.before] at hslot
  cases hslot with
  | ended _ _ hp => exact absurd hp hstep.advances.ne_stopped
  | @live _ _ _ units n hw ht hp =>
    obtain ⟨rfl, rfl⟩ := hw
    unfold step? at hs
    rw [hstep.before] at hs
    dsimp only at hs
    split at hs
    all_goals first
      | cases hs; done
      | rename_i hphase; rw [hphase] at hp; cases hp
    · cases hs
      exact ⟨_, h.attempt ht (Nat.lt_of_lt_of_le Nat.zero_lt_one (Nat.le_max_right _ _)) now⟩
    · rename_i hpos hn
      cases hs
      exact ⟨_, h.attempt ht hn now⟩
    · rename_i hpos hn
      cases hs
      exact ⟨_, move (w := { w with phase := .observing n }) h ht (.observing hpos hn)⟩
    · rename_i hpos hn
      cases hs
      exact h.fail ht hpos hn now _
    · rename_i hpos hn
      split at hs
      · cases hs
        exact ⟨_, publish (w := { w with phase := .stopped }) h ht rfl rfl rfl (.completed hpos)⟩
      · cases hs
        exact h.fail ht hpos hn now _
    · rename_i hpos hn
      cases hs
      exact ⟨_, move (w := { w with phase := .stopped }) h ht (.stopped hpos hn)⟩
    · rename_i hpos hn
      cases hs
      exact ⟨_, move (w := { w with phase := .stopped }) h ht (.stopped hpos hn)⟩

theorem cancel {k : Option Nat} (h : s.Records units k) (now : Timestamp) :
    (s.cancel now).Records units none := by
  have hslot := h.slot
  unfold Scheduler.cancel
  split
  · rename_i hs
    rw [hs] at hslot
    cases hslot
    exact h
  · rename_i w hs
    rw [hs] at hslot
    cases hslot with
    | ended hw ht hp =>
      rw [if_pos ht]
      exact h
    | live hw ht hp =>
      obtain ⟨rfl, rfl⟩ := hw
      rw [if_neg (Bool.eq_false_iff.mp ht)]
      exact publish (w := { w with phase := .stopped }) h ht rfl rfl rfl .cancelled

end Records

def renewed (s : Scheduler ι) (now : Timestamp) (fresh : ι) (mode : LockMode) : Scheduler ι :=
  ((s.cancel now).setSlot { id := fresh, mode }).publish ⟨fresh, mode, .pending, 0, none, now⟩

theorem slot_renewed (s : Scheduler ι) (now : Timestamp) (fresh : ι) (mode : LockMode) :
    (s.renewed now fresh mode).slot = some { id := fresh, mode } :=
  slot_publish_live _ rfl rfl

theorem log_renewed (s : Scheduler ι) (now : Timestamp) (fresh : ι) (mode : LockMode) :
    (s.renewed now fresh mode).log =
      .published ⟨fresh, mode, .pending, 0, none, now⟩ :: (s.cancel now).log :=
  log_publish _ rfl rfl

theorem schedule_of_live (hs : s.slot = some w) (ht : w.status.isTerminal = false) (now : Timestamp)
    (fresh : ι) : s.schedule now fresh w.mode = (s, w.id) := by
  simp [schedule, hs, ht]

theorem schedule_eq_renewed {mode : LockMode}
    (h : ¬ ∃ w, s.slot = some w ∧ w.mode = mode ∧ w.status.isTerminal = false) (now : Timestamp)
    (fresh : ι) : s.schedule now fresh mode = (s.renewed now fresh mode, fresh) := by
  unfold schedule renewed
  dsimp only
  split
  · rfl
  · rename_i w hw
    rw [if_neg fun hk => h ⟨w, hw, hk⟩]

namespace Records

theorem renewed {k : Option Nat} (h : s.Records units k) (now : Timestamp) {fresh : ι}
    (hfresh : fresh ∉ units.map Prod.fst) (mode : LockMode) :
    (s.renewed now fresh mode).Records ((fresh, mode) :: units) (some 0) := by
  have hcancel := h.cancel now
  refine ⟨?_, ?_, outcomes_publish (s := (s.cancel now).setSlot _) hcancel.outcomes _⟩
  · rw [log_renewed, Scheduler.renewed, maxAttempts_publish, maxAttempts_setSlot]
    exact .pending (r := ⟨fresh, mode, .pending, 0, none, now⟩) hcancel.log hfresh rfl
  · rw [slot_renewed]
    exact .live ⟨rfl, rfl⟩ rfl .starting

theorem schedule {k : Option Nat} (h : s.Records units k) (now : Timestamp) {fresh : ι}
    (hfresh : fresh ∉ units.map Prod.fst) (mode : LockMode) :
    ∃ k', (s.schedule now fresh mode).1.Records
      (enlist units (s.schedule now fresh mode).2 mode) k' := by
  by_cases hkept : ∃ w, s.slot = some w ∧ w.mode = mode ∧ w.status.isTerminal = false
  · obtain ⟨w, hw, rfl, ht⟩ := hkept
    have hmem : w.id ∈ units.map Prod.fst := by
      have hslot := h.slot
      rw [hw] at hslot
      cases hslot with
      | ended hw _ _ | live hw _ _ => simp [hw.1]
    rw [schedule_of_live hw ht, enlist, if_pos hmem]
    exact ⟨k, h⟩
  · rw [schedule_eq_renewed hkept, enlist, if_neg hfresh]
    exact ⟨_, h.renewed now hfresh mode⟩

end Records

namespace Operated

variable {config : ActivationConfig}

theorem config_eq (h : Operated config units s) : s.config = config := by
  induction h with
  | new => rfl
  | schedule _ now _ mode ih => exact (schedule_cases _ now _ mode).1.trans ih
  | cancel _ now ih => exact (cancel_cases _ now).1.trans ih
  | step _ now hs ih =>
    obtain ⟨w, w', hstep⟩ := step_cases hs
    exact hstep.config.trans ih

theorem records (h : Operated config units s) : ∃ k, s.Records units k := by
  induction h with
  | new => exact ⟨none, .empty, .nothing, rfl⟩
  | schedule _ now hfresh mode ih =>
    obtain ⟨k, ih⟩ := ih
    exact ih.schedule now hfresh mode
  | cancel _ now ih =>
    obtain ⟨k, ih⟩ := ih
    exact ⟨none, ih.cancel now⟩
  | step _ now hs ih =>
    obtain ⟨k, ih⟩ := ih
    exact ih.step hs

end Operated

def Live (s : Scheduler ι) (u : ι) : Prop :=
  ∃ p ∈ (told s.log u).head?, p.1.isTerminal = false

omit [DecidableEq ι] in
theorem Told.live_iff {max : Nat} {k : Option Nat} {l : List (ActivationStatus × Nat)}
    (h : Told max k l) : (∃ p ∈ l.head?, p.1.isTerminal = false) ↔ k.isSome = true := by
  cases k with
  | some n =>
    obtain ⟨-, rfl⟩ := h
    cases n <;> simp [started, ActivationStatus.isTerminal]
  | none =>
    obtain ⟨n, e, -, he, rfl⟩ := h
    simp [he.isTerminal]

namespace Records

variable {k : Option Nat}

theorem live_iff (h : s.Records units k) (u : ι) :
    s.Live u ↔ ∃ w, s.slot = some w ∧ w.id = u ∧ w.status.isTerminal = false := by
  have hslot := h.slot
  by_cases hu : u ∈ units.map Prod.fst
  · rw [Live, (h.log.told hu).live_iff]
    generalize s.slot = slot at hslot
    cases hslot with
    | nothing => cases hu
    | ended hw ht _ => simp [ht]
    | @live w v _ _ _ hw ht _ =>
      obtain ⟨rfl, -⟩ := hw
      by_cases hv : w.id = u <;> simp [hv, ht]
  · have hnot : ¬ s.Live u := by
      rintro ⟨p, hp, -⟩
      simp [h.log.told_eq_nil hu] at hp
    refine iff_of_false hnot ?_
    rintro ⟨w, hw, rfl, ht⟩
    rw [hw] at hslot
    cases hslot with
    | ended hw _ _ | live hw _ _ => simp [hw.1] at hu

omit [DecidableEq ι] in
theorem live_of_ne_stopped (h : s.Records units k) (hw : s.slot = some w)
    (hp : w.phase ≠ .stopped) : w.status.isTerminal = false := by
  have hslot := h.slot
  rw [hw] at hslot
  cases hslot with
  | ended _ _ hstopped => exact absurd hstopped hp
  | live _ ht _ => exact ht

omit [DecidableEq ι] in
theorem mode_iff (h : s.Records units k) (hw : s.slot = some w) (mode : LockMode) :
    (w.id, mode) ∈ units ↔ w.mode = mode := by
  have hslot := h.slot
  have hnodup := h.log.nodup
  rw [hw] at hslot
  cases hslot with
  | @ended _ u _ units hw _ _ | @live _ u _ units _ hw _ _ =>
    obtain ⟨rfl, rfl⟩ := hw
    have hnot : (w.id, mode) ∉ units := fun hm =>
      (List.nodup_cons.mp hnodup).1 (List.mem_map.mpr ⟨_, hm, rfl⟩)
    simp [hnot, eq_comm]

theorem schedule_iff (h : s.Records units k) (now : Timestamp) {fresh : ι}
    (hfresh : fresh ∉ units.map Prod.fst) (mode : LockMode) (u : ι) :
    (s.schedule now fresh mode).2 = u ↔
      (u, mode) ∈ units ∧ s.Live u ∨ u = fresh ∧ ∀ v, (v, mode) ∈ units → ¬ s.Live v := by
  by_cases hkept : ∃ w, s.slot = some w ∧ w.mode = mode ∧ w.status.isTerminal = false
  · obtain ⟨w, hw, rfl, ht⟩ := hkept
    have hmem : (w.id, w.mode) ∈ units := (h.mode_iff hw _).mpr rfl
    have hlive : s.Live w.id := (h.live_iff _).mpr ⟨w, hw, rfl, ht⟩
    rw [schedule_of_live hw ht]
    constructor
    · rintro rfl
      exact .inl ⟨hmem, hlive⟩
    · rintro (⟨-, hu⟩ | ⟨-, hnone⟩)
      · obtain ⟨v, hv, rfl, -⟩ := (h.live_iff u).mp hu
        rw [Option.some.inj (hw.symm.trans hv)]
      · exact absurd hlive (hnone _ hmem)
  · have hnone (v : ι) (hv : (v, mode) ∈ units) : ¬ s.Live v := by
      rw [h.live_iff]
      rintro ⟨w, hw, rfl, ht⟩
      exact hkept ⟨w, hw, (h.mode_iff hw mode).mp hv, ht⟩
    rw [schedule_eq_renewed hkept]
    constructor
    · rintro rfl
      exact .inr ⟨rfl, hnone⟩
    · rintro (⟨hu, hlive⟩ | ⟨rfl, -⟩)
      · exact absurd hlive (hnone u hu)
      · rfl

end Records

structure Lifecycle (config : ActivationConfig) (units : List (ι × LockMode)) (s : Scheduler ι) :
    Prop where
  live : ∀ u, s.Live u ↔ ∃ w, s.slot = some w ∧ w.id = u ∧ w.status.isTerminal = false
  kept : ∀ now fresh mode, fresh ∉ units.map Prod.fst → ∀ u,
    (s.schedule now fresh mode).2 = u ↔
      ((u, mode) ∈ units ∧ s.Live u) ∨ u = fresh ∧ ∀ v, (v, mode) ∈ units → ¬ s.Live v
  told : ∀ u ∈ units.map Prod.fst, ∃ k,
    Told (max config.maxAttempts.toNat 1) k (told s.log u)
  unit : ∀ r ∈ reportsIn s.log, (r.work, r.mode) ∈ units
  nodup : (units.map Prod.fst).Nodup
  ordered : (reportsIn s.log).Pairwise fun later earlier =>
    (units.map Prod.fst).idxOf later.work ≤ (units.map Prod.fst).idxOf earlier.work
  entered : s.log.Pairwise fun later earlier => ∀ r mode, earlier = .published r →
    r.status.isTerminal = true → later ≠ .entering r.work mode
  counted : ∀ status, s.outcomes.count status =
    if status.isTerminal then (reportsIn s.log).countP (·.status = status) else 0

theorem Operated.lifecycle {config : ActivationConfig} (h : Operated config units s) :
    s.Lifecycle config units := by
  obtain ⟨k, hk⟩ := h.records
  refine ⟨hk.live_iff, fun now _ mode hfresh => hk.schedule_iff now hfresh mode, fun u hu => ?_,
    fun r hr => hk.log.unit_mem hr, hk.log.nodup, hk.log.ordered, hk.log.entered_before,
    fun status => ?_⟩
  · obtain rfl := h.config_eq
    exact ⟨_, hk.log.told hu⟩
  rw [hk.outcomes, endings]
  split
  · rename_i ht
    rw [List.count_filter ht, List.count, List.countP_map]
    rfl
  · rename_i ht
    rw [List.count_eq_zero]
    exact fun hmem => ht (List.mem_filter.mp hmem).2

theorem lifecycle_replaced :
    ∃ s : Scheduler Nat, Operated {} [(1, .setupUi), (0, .lockUi)] s ∧
      s.Lifecycle {} [(1, .setupUi), (0, .lockUi)] ∧
        told s.log 0 = [(.cancelled, 0), (.executing, 1), (.pending, 0)] ∧ s.Live 1 := by
  obtain ⟨now⟩ := nonempty_timestamp
  have hlocked : Operated {} [(0, .lockUi)] _ := .schedule .new now (by decide) .lockUi
  have hstarted := Operated.step (t := .start) hlocked now rfl
  have hreplaced : Operated {} [(1, .setupUi), (0, .lockUi)] _ :=
    hstarted.schedule now (by decide : 1 ∉ [0]) .setupUi
  exact ⟨_, hreplaced, hreplaced.lifecycle, rfl, _, rfl, rfl⟩

end DeviceLock.Scheduler
