import DeviceLock.Proofs.Activation.Abandonment
import Mathlib.Data.Nat.Find
import Mathlib.Tactic.ByContra

namespace DeviceLock

namespace ActivationConfig

/-- The least number of milliseconds that is too long for a wait. -/
def tooLong : Nat := 1000 * UInt64.size

def longest (c : ActivationConfig) : Nat := c.retryDelay.toNat * (c.maxAttempts.toNat - 1)

variable {c : ActivationConfig} {n : Nat}

theorem backoff?_eq_some_iff {d : Nat} :
    c.backoff? n = some d ↔ c.retryDelay.toNat * n = d ∧ c.retryDelay.toNat * n < tooLong := by
  have hseconds : c.retryDelay.toNat * n / 1000 < UInt64.size ↔
      c.retryDelay.toNat * n < tooLong := by
    rw [tooLong, Nat.div_lt_iff_lt_mul (by decide), Nat.mul_comm UInt64.size]
  simp only [backoff?, hseconds]
  split
  · rename_i h
    simp [h]
  · rename_i h
    simp [h]

theorem backoff?_eq_none_iff : c.backoff? n = none ↔ tooLong ≤ c.retryDelay.toNat * n := by
  rw [Option.eq_none_iff_forall_ne_some]
  constructor
  · intro h
    by_contra hlt
    exact h _ (backoff?_eq_some_iff.mpr ⟨rfl, Nat.not_le.mp hlt⟩)
  · intro h d hd
    exact absurd (backoff?_eq_some_iff.mp hd).2 (Nat.not_lt.mpr h)

theorem wait_le_longest (hn : n < c.maxAttempts.toNat) : c.retryDelay.toNat * n ≤ c.longest :=
  Nat.mul_le_mul_left _ (Nat.le_sub_one_of_lt hn)

theorem longest_lt_of_few (h : c.maxAttempts.toNat ≤ 1001) : c.longest < tooLong := by
  have hdelay : c.retryDelay.toNat < UInt64.size := c.retryDelay.toNat_lt
  have hle : c.longest ≤ c.retryDelay.toNat * 1000 := Nat.mul_le_mul_left _ (by omega)
  unfold tooLong
  omega

theorem longest_lt_of_short (h : c.retryDelay.toNat ≤ 4294967298000) : c.longest < tooLong := by
  have hattempts : c.maxAttempts.toNat < 2 ^ 32 := c.maxAttempts.toNat_lt
  calc c.longest ≤ 4294967298000 * (2 ^ 32 - 2) := Nat.mul_le_mul h (by omega)
    _ < tooLong := by decide

theorem exists_first (h : tooLong ≤ c.longest) :
    ∃ n, 1000 < n ∧ n < c.maxAttempts.toNat ∧ tooLong ≤ c.retryDelay.toNat * n ∧
      ∀ i < n, c.retryDelay.toNat * i < tooLong := by
  have hex : ∃ n, tooLong ≤ c.retryDelay.toNat * n := ⟨_, h⟩
  obtain ⟨n, hn, hle, hmin⟩ : ∃ n, tooLong ≤ c.retryDelay.toNat * n ∧
      n ≤ c.maxAttempts.toNat - 1 ∧ ∀ i < n, ¬ tooLong ≤ c.retryDelay.toNat * i :=
    ⟨Nat.find hex, Nat.find_spec hex, Nat.find_min' hex h, fun i hi => Nat.find_min hex hi⟩
  have hlong : 1000 < n := by
    by_contra hfew
    have hdelay : c.retryDelay.toNat < UInt64.size := c.retryDelay.toNat_lt
    have hthousand : c.retryDelay.toNat * n ≤ c.retryDelay.toNat * 1000 :=
      Nat.mul_le_mul_left _ (Nat.not_lt.mp hfew)
    unfold tooLong at hn
    omega
  exact ⟨n, hlong, by omega, hn, fun i hi => Nat.not_le.mp (hmin i hi)⟩

end ActivationConfig

open ActivationConfig

namespace Scheduler

variable {ι : Type} [DecidableEq ι] {config : ActivationConfig} {units : List (ι × LockMode)}
  {s s' : Scheduler ι} {w : ActivationWork ι} {n : Nat} {now : Timestamp} {t : TaskStep}

theorem Operated.panicked_of_abandoned (h : Operated config units s)
    (hlongest : config.longest < tooLong) (hvalid : config.maxAttempts ≠ 0)
    (hs : s.step? now t = some s') (ha : s'.Abandoned) : t = .panicked := by
  obtain ⟨k, hk⟩ := h.records
  obtain ⟨w, w', hstep⟩ := step_cases hs
  have hw := hstep.before
  have hlive := hk.live_of_ne_stopped hw hstep.advances.ne_stopped
  have hkept (n : Nat) : ¬ s.Overlong n := by
    obtain rfl := h.config_eq
    rintro ⟨hn, hnone⟩
    have hpos : s.config.maxAttempts.toNat ≠ 0 := fun h0 => hvalid (UInt32.toNat_inj.mp h0)
    have hn : n < s.config.maxAttempts.toNat := by
      unfold maxAttempts at hn
      omega
    have hlong := backoff?_eq_none_iff.mp hnone
    have hle := wait_le_longest hn
    omega
  cases (abandoned_step hw hlive hs).mp ha with
  | panicked => rfl
  | rejected _ hn => exact absurd hn (hkept _)
  | missed _ hn => exact absurd hn (hkept _)

theorem Records.told_of_entering {k : Option Nat} (h : s.Records units k) (hw : s.slot = some w)
    (hp : w.phase = .entering n) : told s.log w.id = started n := by
  have hslot := h.slot
  rw [hw] at hslot
  cases hslot with
  | ended _ _ hstopped =>
    rw [hp] at hstopped
    cases hstopped
  | live hunit _ hcounts =>
    obtain ⟨rfl, rfl⟩ := hunit
    rw [hp] at hcounts
    cases hcounts
    have htold := h.log.told (u := w.id) List.mem_cons_self
    rw [List.map_cons, List.head?_cons, if_pos rfl] at htold
    exact htold.2

theorem fail_of_overlong (h : s.Overlong n) (now : Timestamp) (w : ActivationWork ι)
    (message : String) : s.fail now w n message =
      s.setSlot { w with lastError := some message, phase := .stopped } := by
  simp [fail, h.1, h.2]

theorem step_rejected (hw : s.slot = some w) (hp : w.phase = .entering n) (now : Timestamp)
    (message : String) :
    s.step? now (.rejected message) = some (s.fail now w n (entryRejected message)) := by
  simp [step?, hw, hp]

theorem Operated.entering_first (now : Timestamp) (u : ι) (mode : LockMode) :
    ∃ s w, Operated config [(u, mode)] s ∧ s.slot = some w ∧ w.id = u ∧ w.phase = .entering 1 := by
  obtain ⟨s, hasked, hslot⟩ : ∃ s : Scheduler ι, Operated config [(u, mode)] s ∧
      s.slot = some { id := u, mode } := by
    have hnew : Operated config [] ({ config } : Scheduler ι) := .new
    have hschedule := hnew.schedule now (by simp : u ∉ [].map _) mode
    rw [schedule_eq_renewed (by simp)] at hschedule
    exact ⟨_, hschedule, slot_renewed _ now u mode⟩
  have hstart : s.step? now .start = some (s.attempt now { id := u, mode } 1) := by
    simp only [step?, hslot]
  exact ⟨_, _, hasked.step now hstart, attempt_slot s now _ 1, rfl, rfl⟩

theorem exists_entering (u : ι) (mode : LockMode) (hn : n < config.maxAttempts.toNat)
    (hkept : ∀ i ≤ n, config.retryDelay.toNat * i < tooLong) :
    ∃ s w, Operated config [(u, mode)] s ∧ s.slot = some w ∧ w.id = u ∧
      w.phase = .entering (n + 1) := by
  obtain ⟨now⟩ := nonempty_timestamp
  induction n with
  | zero => exact Operated.entering_first now u mode
  | succ n ih =>
    obtain ⟨s, w, h, hw, hu, hp⟩ := ih (by omega) fun i hi => hkept i (by omega)
    have hrests : s.afterFailure (n + 1) = .resting (n + 1) := by
      obtain rfl := h.config_eq
      have hbackoff := backoff?_eq_some_iff.mpr ⟨rfl, hkept (n + 1) (Nat.le_refl _)⟩
      refine if_pos ⟨Nat.lt_of_lt_of_le hn (Nat.le_max_left _ _), ?_⟩
      rw [hbackoff, Option.isSome_some]
    have hrested := h.step now (step_rejected hw hp now "")
    rw [fail_of_resting hrests] at hrested
    refine ⟨_, _, hrested.step (t := .wake) now rfl, attempt_slot _ now _ _, hu, rfl⟩

theorem exists_abandoned (u : ι) (mode : LockMode) (hpos : 0 < n)
    (hn : n < config.maxAttempts.toNat) (hfirst : tooLong ≤ config.retryDelay.toNat * n)
    (hbefore : ∀ i < n, config.retryDelay.toNat * i < tooLong) :
    ∃ s : Scheduler ι, Operated config [(u, mode)] s ∧ s.Abandoned ∧ told s.log u = started n := by
  obtain ⟨now⟩ := nonempty_timestamp
  obtain ⟨m, rfl⟩ := Nat.exists_eq_succ_of_ne_zero (Nat.ne_of_gt hpos)
  obtain ⟨s, w, h, hw, rfl, hp⟩ := exists_entering u mode (n := m) (by omega)
    fun i hi => hbefore i (Nat.lt_succ_of_le hi)
  obtain ⟨k, hk⟩ := h.records
  have hoverlong : s.Overlong (m + 1) := by
    obtain rfl := h.config_eq
    exact ⟨Nat.lt_of_lt_of_le hn (Nat.le_max_left _ _), backoff?_eq_none_iff.mpr hfirst⟩
  have hfailed := h.step now (step_rejected hw hp now "")
  have hlive : w.status.isTerminal = false := hk.live_of_ne_stopped hw (by rw [hp]; simp)
  refine ⟨_, hfailed, (abandoned_fail hlive now _ _).mpr hoverlong, ?_⟩
  rw [fail_of_overlong hoverlong]
  exact hk.told_of_entering hw hp

end Scheduler

structure Waits (ι : Type) [DecidableEq ι] (config : ActivationConfig) : Prop where
  kept : (∀ n, 1 ≤ n → n < config.maxAttempts.toNat →
    config.backoff? n = some (config.retryDelay.toNat * n)) ↔ config.longest < tooLong
  spared : config.longest < tooLong → ∀ units (s : Scheduler ι), s.Operated config units →
    ∀ now t s', s.step? now t = some s' → s'.Abandoned → t = .panicked
  lost : tooLong ≤ config.longest → ∃ n, 1000 < n ∧ n < config.maxAttempts.toNat ∧
    config.backoff? n = none ∧
    (∀ i, 1 ≤ i → i < n → config.backoff? i = some (config.retryDelay.toNat * i)) ∧
    ∀ (u : ι) (mode : LockMode), ∃ s : Scheduler ι, s.Operated config [(u, mode)] ∧ s.Abandoned ∧
      Scheduler.told s.log u = Scheduler.started n
  few : config.maxAttempts.toNat ≤ 1001 → config.longest < tooLong
  short : config.retryDelay.toNat ≤ 4294967298000 → config.longest < tooLong

theorem EngineConfig.backoff_waits {ι : Type} [DecidableEq ι] {config : EngineConfig}
    (h : config.validate = .ok config) : Waits ι config.activation := by
  have hvalid : config.activation.maxAttempts ≠ 0 := (validate_eq_ok.mp h).2
  have hpos : config.activation.maxAttempts.toNat ≠ 0 := fun h0 => hvalid (UInt32.toNat_inj.mp h0)
  refine ⟨⟨fun hkept => ?_, fun hlongest n _ hn => ?_⟩, fun hlongest units s hs now t s' hstep ha =>
    hs.panicked_of_abandoned hlongest hvalid hstep ha, fun hlongest => ?_, longest_lt_of_few,
    longest_lt_of_short⟩
  · by_cases hone : config.activation.maxAttempts.toNat = 1
    · exact longest_lt_of_few (by omega)
    · exact (backoff?_eq_some_iff.mp (hkept (config.activation.maxAttempts.toNat - 1)
        (by omega) (by omega))).2
  · exact backoff?_eq_some_iff.mpr ⟨rfl, Nat.lt_of_le_of_lt (wait_le_longest hn) hlongest⟩
  · obtain ⟨n, hlong, hn, hfirst, hbefore⟩ := exists_first hlongest
    refine ⟨n, hlong, hn, backoff?_eq_none_iff.mpr hfirst,
      fun i _ hi => backoff?_eq_some_iff.mpr ⟨rfl, hbefore i hi⟩, fun u mode => ?_⟩
    exact Scheduler.exists_abandoned u mode (by omega) hn hfirst hbefore

def EngineConfig.patient : EngineConfig where
  activation := ⟨4294967295, 18446744073709551615⟩

theorem EngineConfig.backoff_waits_patient :
    patient.validate = .ok patient ∧ tooLong ≤ patient.activation.longest ∧
      Waits Nat patient.activation :=
  ⟨rfl, by decide, backoff_waits rfl⟩

theorem EngineConfig.wait_overflows :
    ¬ ∀ config : EngineConfig, config.validate = .ok config →
      ∀ n, 1 ≤ n → n < config.activation.maxAttempts.toNat →
        (config.activation.backoff? n).isSome = true := by
  intro h
  have hthousand := h patient rfl 1001 (by decide) (by decide)
  exact absurd hthousand (by decide)

end DeviceLock
