import DeviceLock.Proofs.Activation.Lifecycle

namespace DeviceLock.Scheduler

section

variable {ι : Type}

def Abandoned (s : Scheduler ι) : Prop :=
  ∃ w, s.slot = some w ∧ w.status.isTerminal = false ∧ w.phase = .stopped

def HasTask (s : Scheduler ι) (u : ι) : Prop :=
  ∃ w, s.slot = some w ∧ w.id = u ∧ w.phase ≠ .stopped

def Overlong (s : Scheduler ι) (n : Nat) : Prop :=
  n < s.maxAttempts ∧ s.config.backoff? n = none

inductive Kills (s : Scheduler ι) (w : ActivationWork ι) : TaskStep → Prop
  | panicked : Kills s w .panicked
  | rejected {n : Nat} (hp : w.phase = .entering n) (hn : s.Overlong n) (message : String) :
      Kills s w (.rejected message)
  | missed {n : Nat} {observed : Option LockMode} (hp : w.phase = .observing n)
      (hn : s.Overlong n) (ho : observed ≠ some w.mode) : Kills s w (.observed observed)

theorem abandoned_iff {s : Scheduler ι} {w : ActivationWork ι} (hw : s.slot = some w) :
    s.Abandoned ↔ w.status.isTerminal = false ∧ w.phase = .stopped := by
  constructor
  · rintro ⟨v, hv, h⟩
    obtain rfl := Option.some.inj (hw.symm.trans hv)
    exact h
  · exact fun h => ⟨w, hw, h⟩

end

variable {ι : Type} [DecidableEq ι] {units : List (ι × LockMode)} {k : Option Nat}
  {s s' : Scheduler ι} {w : ActivationWork ι} {n : Nat} {now : Timestamp} {t : TaskStep}

theorem not_abandoned_attempt (s : Scheduler ι) (now : Timestamp) (w : ActivationWork ι) (n : Nat) :
    ¬ (s.attempt now w n).Abandoned := by
  rw [abandoned_iff (attempt_slot s now w n)]
  rintro ⟨-, hp⟩
  cases hp

theorem not_abandoned_publish (s : Scheduler ι) (w : ActivationWork ι) {r : ActivationReport ι}
    (hr : r.work = w.id) (ht : r.status.isTerminal = true) :
    ¬ ((s.setSlot w).publish r).Abandoned := by
  rw [abandoned_iff (slot_publish s w r hr)]
  rintro ⟨hl, -⟩
  dsimp only at hl
  split at hl
  · rename_i hw
    exact Bool.false_ne_true (hl.symm.trans hw)
  · exact Bool.false_ne_true (hl.symm.trans ht)

theorem abandoned_fail (hl : w.status.isTerminal = false) (now : Timestamp) (n : Nat)
    (message : String) : (s.fail now w n message).Abandoned ↔ s.Overlong n := by
  unfold fail Overlong
  dsimp only
  by_cases hn : n < s.maxAttempts
  · rw [if_pos hn]
    cases hb : s.config.backoff? n with
    | none =>
      exact iff_of_true ⟨_, rfl, hl, rfl⟩ ⟨hn, rfl⟩
    | some d =>
      refine iff_of_false ?_ (by simp)
      rintro ⟨v, hv, -, hp⟩
      obtain rfl := Option.some.inj hv
      cases hp
  · rw [if_neg hn]
    exact iff_of_false (not_abandoned_publish s _ rfl rfl) (fun h => hn h.1)

theorem abandoned_step (hw : s.slot = some w) (hl : w.status.isTerminal = false)
    (hs : s.step? now t = some s') : s'.Abandoned ↔ s.Kills w t := by
  unfold step? at hs
  rw [hw] at hs
  dsimp only at hs
  split at hs
  · cases hs
    exact iff_of_false (not_abandoned_attempt s now w _) (fun h => by cases h)
  · cases hs
    exact iff_of_false (not_abandoned_attempt s now w _) (fun h => by cases h)
  · cases hs
    refine iff_of_false ?_ (fun h => by cases h)
    rintro ⟨v, hv, -, hp⟩
    obtain rfl := Option.some.inj hv
    cases hp
  · rename_i n message hphase
    cases hs
    rw [abandoned_fail hl]
    constructor
    · exact fun hn => .rejected hphase hn message
    · rintro (_ | ⟨hp, hn⟩)
      rw [hphase] at hp
      cases hp
      exact hn
  · rename_i n observed hphase
    split at hs
    · rename_i ho
      cases hs
      refine iff_of_false (not_abandoned_publish s _ rfl rfl) ?_
      rintro (_ | _ | ⟨-, -, hne⟩)
      exact hne ho
    · rename_i ho
      cases hs
      rw [abandoned_fail hl]
      constructor
      · exact fun hn => .missed hphase hn ho
      · rintro (_ | _ | ⟨hp, hn, -⟩)
        rw [hphase] at hp
        cases hp
        exact hn
  · cases hs
    exact iff_of_true ⟨_, rfl, hl, rfl⟩ .panicked
  · cases hs
    exact iff_of_true ⟨_, rfl, hl, rfl⟩ .panicked
  · cases hs

theorem not_abandoned_cancel (s : Scheduler ι) (now : Timestamp) : ¬ (s.cancel now).Abandoned := by
  rintro ⟨w, hw, hl, -⟩
  exact Bool.false_ne_true (hl.symm.trans ((cancel_cases s now).2.2 w hw).1)

theorem not_abandoned_renewed (s : Scheduler ι) (now : Timestamp) (fresh : ι) (mode : LockMode) :
    ¬ (s.renewed now fresh mode).Abandoned := by
  rw [abandoned_iff (slot_renewed s now fresh mode)]
  rintro ⟨-, hp⟩
  cases hp

theorem abandoned_schedule (s : Scheduler ι) (now : Timestamp) (fresh : ι) (mode : LockMode) :
    (s.schedule now fresh mode).1.Abandoned ↔
      s.Abandoned ∧ ∃ w, s.slot = some w ∧ w.mode = mode := by
  by_cases hkept : ∃ w, s.slot = some w ∧ w.mode = mode ∧ w.status.isTerminal = false
  · obtain ⟨w, hw, rfl, ht⟩ := hkept
    rw [schedule_of_live hw ht]
    exact ⟨fun h => ⟨h, w, hw, rfl⟩, And.left⟩
  · rw [schedule_eq_renewed hkept]
    refine iff_of_false (not_abandoned_renewed s now fresh mode) ?_
    rintro ⟨⟨v, hv, hl, -⟩, w, hw, hm⟩
    obtain rfl := Option.some.inj (hw.symm.trans hv)
    exact hkept ⟨w, hw, hm, hl⟩

theorem Abandoned.step_eq_none (h : s.Abandoned) (now : Timestamp) (t : TaskStep) :
    s.step? now t = none := by
  obtain ⟨w, hw, -, hp⟩ := h
  simp [step?, hw, hp]

theorem Abandoned.tasks (h : s.Abandoned) (ht : s.Tasks s') : s' = s := by
  induction ht with
  | refl => rfl
  | step _ hs ih =>
    subst ih
    rw [h.step_eq_none] at hs
    cases hs

theorem Abandoned.kept (h : s.Abandoned) (hw : s.slot = some w) (now : Timestamp) (fresh : ι) :
    s.schedule now fresh w.mode = (s, w.id) :=
  schedule_of_live hw ((abandoned_iff hw).mp h).1 now fresh

theorem Abandoned.told_cancel (h : s.Abandoned) (hw : s.slot = some w) (now : Timestamp) :
    told (s.cancel now).log w.id = (.cancelled, 0) :: told s.log w.id := by
  rw [log_cancel hw ((abandoned_iff hw).mp h).1, told_published, if_pos rfl]
  rfl

theorem exists_completed (hw : s.slot = some w) (hl : w.status.isTerminal = false)
    (hp : w.phase ≠ .stopped) :
    ∃ s' w', s.Tasks s' ∧ s'.slot = some w' ∧ w'.status = .completed := by
  obtain ⟨now⟩ := nonempty_timestamp
  have hobserving {s₁ : Scheduler ι} {v : ActivationWork ι} {n : Nat} (h₁ : s.Tasks s₁)
      (hv : s₁.slot = some v) (hl : v.status.isTerminal = false) (hp : v.phase = .observing n) :
      ∃ s' w', s.Tasks s' ∧ s'.slot = some w' ∧ w'.status = .completed := by
    refine ⟨_, _, h₁.step (?_ : s₁.step? now (.observed (some v.mode)) = _),
      slot_publish_live s₁ (w := { v with phase := .stopped })
        (r := ⟨v.id, v.mode, .completed, n, none, now⟩) hl rfl, rfl⟩
    simp [step?, hv, hp]
  have hentering {s₁ : Scheduler ι} {v : ActivationWork ι} {n : Nat} (h₁ : s.Tasks s₁)
      (hv : s₁.slot = some v) (hl : v.status.isTerminal = false) (hp : v.phase = .entering n) :
      ∃ s' w', s.Tasks s' ∧ s'.slot = some w' ∧ w'.status = .completed := by
    have hs : s₁.step? now .entered = some (s₁.setSlot { v with phase := .observing n }) := by
      simp [step?, hv, hp]
    exact hobserving (h₁.step hs) rfl hl rfl
  have hattempt {n : Nat} {t : TaskStep} (hs : s.step? now t = some (s.attempt now w n)) :
      ∃ s' w', s.Tasks s' ∧ s'.slot = some w' ∧ w'.status = .completed := by
    refine hentering (.step .refl hs) (attempt_slot s now w n) ?_ rfl
    simp only [hl, Bool.false_eq_true, if_false]
    rfl
  cases hphase : w.phase with
  | starting => exact hattempt (n := 1) (t := .start) (by simp [step?, hw, hphase])
  | entering n => exact hentering .refl hw hl hphase
  | observing n => exact hobserving .refl hw hl hphase
  | resting n => exact hattempt (n := n + 1) (t := .wake) (by simp [step?, hw, hphase])
  | stopped => exact absurd hphase hp

theorem Records.tasks (h : s.Records units k) (ht : s.Tasks s') : ∃ k', s'.Records units k' := by
  induction ht with
  | refl => exact ⟨k, h⟩
  | step _ hs ih =>
    obtain ⟨k', ih⟩ := ih
    exact ih.step hs

namespace Records

theorem hasTask_iff (h : s.Records units k) (u : ι) :
    s.HasTask u ↔ s.Live u ∧ ¬ s.Abandoned := by
  rw [h.live_iff]
  constructor
  · rintro ⟨w, hw, rfl, hp⟩
    exact ⟨⟨w, hw, rfl, h.live_of_ne_stopped hw hp⟩, fun ha => hp ((abandoned_iff hw).mp ha).2⟩
  · rintro ⟨⟨w, hw, rfl, ht⟩, ha⟩
    exact ⟨w, hw, rfl, fun hp => ha ⟨w, hw, ht, hp⟩⟩

theorem exists_end_iff (h : s.Records units k) (u : ι) :
    (s.Live u ∧ ∃ s', s.Tasks s' ∧ ¬ s'.Live u) ↔ s.HasTask u := by
  constructor
  · rintro ⟨hl, s', ht, hend⟩
    refine (h.hasTask_iff u).mpr ⟨hl, fun ha => hend ?_⟩
    rwa [ha.tasks ht]
  · intro htask
    obtain ⟨hl, -⟩ := (h.hasTask_iff u).mp htask
    obtain ⟨w, hw, rfl, ht⟩ := (h.live_iff u).mp hl
    obtain ⟨v, hv, -, hp⟩ := htask
    obtain rfl := Option.some.inj (hw.symm.trans hv)
    obtain ⟨s', w', htasks, hw', hc⟩ := exists_completed hw ht hp
    refine ⟨hl, s', htasks, ?_⟩
    obtain ⟨k', h'⟩ := h.tasks htasks
    rw [h'.live_iff]
    rintro ⟨v, hv, -, ht'⟩
    obtain rfl := Option.some.inj (hw'.symm.trans hv)
    rw [hc] at ht'
    cases ht'

theorem exists_terminal (h : s.Records units k) {u : ι} (hu : u ∈ units.map Prod.fst)
    (hl : ¬ s.Live u) : ∃ p ∈ (told s.log u).head?, p.1.isTerminal = true := by
  have htold := h.log.told hu
  rw [Live, htold.live_iff, Bool.not_eq_true, Option.isSome_eq_false_iff,
    Option.isNone_iff_eq_none] at hl
  rw [hl] at htold
  obtain ⟨n, e, -, he, htold⟩ := htold
  exact ⟨e, by simp [htold], he.isTerminal⟩

end Records

structure Abandonment (units : List (ι × LockMode)) (s : Scheduler ι) : Prop where
  tasked : ∀ u, s.HasTask u ↔ s.Live u ∧ ¬ s.Abandoned
  ending : ∀ u, (s.Live u ∧ ∃ s', s.Tasks s' ∧ ¬ s'.Live u) ↔ s.HasTask u
  ended : ∀ u ∈ units.map Prod.fst, ¬ s.Live u → ∃ p ∈ (told s.log u).head?, p.1.isTerminal = true
  step : ∀ now t s', s.step? now t = some s' →
    (s'.Abandoned ↔ ∃ w, s.slot = some w ∧ s.Kills w t)
  cancel : ∀ now, ¬ (s.cancel now).Abandoned
  schedule : ∀ now fresh mode, (s.schedule now fresh mode).1.Abandoned ↔
    s.Abandoned ∧ ∃ w, s.slot = some w ∧ w.mode = mode
  stuck : s.Abandoned → ∀ now t, s.step? now t = none
  kept : s.Abandoned → ∀ w, s.slot = some w → ∀ now fresh,
    s.schedule now fresh w.mode = (s, w.id)
  released : s.Abandoned → ∀ w, s.slot = some w → ∀ now,
    told (s.cancel now).log w.id = (.cancelled, 0) :: told s.log w.id

theorem Operated.abandonment {config : ActivationConfig} (h : Operated config units s) :
    s.Abandonment units := by
  obtain ⟨k, hk⟩ := h.records
  refine ⟨hk.hasTask_iff, hk.exists_end_iff, fun u hu hl => hk.exists_terminal hu hl,
    fun now t s' hs => ?_, not_abandoned_cancel s, abandoned_schedule s,
    Abandoned.step_eq_none, fun ha w hw now fresh => ha.kept hw now fresh,
    fun ha w hw now => ha.told_cancel hw now⟩
  obtain ⟨w, w', hstep⟩ := step_cases hs
  have hw := hstep.before
  rw [abandoned_step hw (hk.live_of_ne_stopped hw hstep.advances.ne_stopped) hs]
  constructor
  · exact fun hkills => ⟨w, hw, hkills⟩
  · rintro ⟨v, hv, hkills⟩
    obtain rfl := Option.some.inj (hw.symm.trans hv)
    exact hkills

theorem operated_panicked :
    ∃ s : Scheduler Nat, Operated {} [(0, .lockUi)] s ∧ s.Abandoned := by
  obtain ⟨now⟩ := nonempty_timestamp
  have hlocked : Operated {} [(0, .lockUi)] _ := .schedule .new now (by decide) .lockUi
  have hstarted := Operated.step (t := .start) hlocked now rfl
  exact ⟨_, Operated.step (t := .panicked) hstarted now rfl, _, rfl, rfl, rfl⟩

theorem abandonment_panicked :
    ∃ s : Scheduler Nat, Operated {} [(0, .lockUi)] s ∧ s.Abandoned ∧
      s.Abandonment [(0, .lockUi)] := by
  obtain ⟨s, h, ha⟩ := operated_panicked
  exact ⟨s, h, ha, h.abandonment⟩

theorem executes_without_task :
    ¬ ∀ (config : ActivationConfig) (units : List (Nat × LockMode)) (s : Scheduler Nat),
      Operated config units s → ∀ w, s.slot = some w → w.status.isTerminal = false →
        w.phase ≠ .stopped := by
  intro h
  obtain ⟨s, hs, w, hw, hl, hp⟩ := operated_panicked
  exact h {} _ s hs w hw hl hp

end DeviceLock.Scheduler
