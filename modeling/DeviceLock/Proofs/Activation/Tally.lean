import DeviceLock.Proofs.Activation.Lifecycle

namespace DeviceLock.Scheduler

section

variable {ι : Type}

theorem le_of_mem_started {n k : Nat} (h : k ∈ (started n).map Prod.snd) : k ≤ n := by
  induction n with
  | zero => exact Nat.le_of_eq (List.mem_singleton.mp h)
  | succ n ih =>
    rcases List.mem_cons.mp h with rfl | h
    · exact Nat.le_refl _
    · exact Nat.le_succ_of_le (ih h)

theorem pairwise_started (n : Nat) : ((started n).map Prod.snd).Pairwise (· ≥ ·) := by
  induction n with
  | zero => simp [started]
  | succ n ih =>
    rw [started, List.map_cons, List.pairwise_cons]
    exact ⟨fun k hk => Nat.le_succ_of_le (le_of_mem_started hk), ih⟩

theorem cancelled_not_mem_started (n : Nat) : (.cancelled, 0) ∉ started n := by
  intro h
  cases not_isTerminal_of_started h

theorem countP_started (n : Nat) : (started n).countP (·.1 = .executing) = n := by
  induction n with
  | zero => rfl
  | succ n ih => simp [started, ih]

variable [DecidableEq ι]

def calls (log : List (SchedulerEvent ι)) (u : ι) : Nat :=
  log.countP fun
    | .entering v _ => v = u
    | .published _ => false

structure Tallies (log : List (SchedulerEvent ι)) (u : ι) : Prop where
  rising : ((told log u).map Prod.snd).Pairwise (· ≥ ·)
  final : ∀ p ∈ told log u, p.1.isTerminal = true → p.2 = calls log u

/-- The unit was cancelled after an attempt. -/
def Understated (log : List (SchedulerEvent ι)) (u : ι) : Prop :=
  (.cancelled, 0) ∈ told log u ∧ 0 < calls log u

end

variable {ι : Type} [DecidableEq ι] {units : List (ι × LockMode)} {k : Option Nat}
  {s : Scheduler ι} {log : List (SchedulerEvent ι)} {max : Nat}

theorem Chronicle.calls (h : Chronicle max units k log) (u : ι) :
    Scheduler.calls log u = (Scheduler.told log u).countP (·.1 = .executing) := by
  have hcons (e : SchedulerEvent ι) (log : List (SchedulerEvent ι)) :
      Scheduler.calls (e :: log) u = Scheduler.calls log u + match e with
        | .entering v _ => if v = u then 1 else 0
        | .published _ => 0 := by
    cases e <;> simp [Scheduler.calls, List.countP_cons]
  have hsilent {r : ActivationReport ι} (hr : (progress r).1 ≠ .executing)
      (log : List (SchedulerEvent ι)) :
      (Scheduler.told (.published r :: log) u).countP (·.1 = .executing) =
        (Scheduler.told log u).countP (·.1 = .executing) := by
    rw [told_published]
    split
    · rw [List.countP_cons_of_neg (by simpa using hr)]
    · rfl
  induction h with
  | empty => rfl
  | pending _ _ hr ih =>
    rw [hcons, hsilent (by rw [hr]; decide), ih, Nat.add_zero]
  | @attempt units n log r _ _ hr ih =>
    rw [hcons, hcons, ih, told_entering, told_published, hr]
    by_cases hu : r.work = u <;> simp [hu]
  | ends _ hr ih =>
    rw [hcons, hsilent, ih, Nat.add_zero]
    intro he
    have ht := hr.isTerminal
    rw [he] at ht
    cases ht

theorem Ends.countP {n : Nat} {e : ActivationStatus × Nat} (h : Ends max n e) :
    (e :: started n).countP (·.1 = .executing) = n := by
  rw [List.countP_cons_of_neg, countP_started]
  cases h <;> simp

theorem Ends.snd_eq_iff {n : Nat} {e : ActivationStatus × Nat} (h : Ends max n e) :
    e.2 = n ↔ ¬ (e = (.cancelled, 0) ∧ 0 < n) := by
  cases h with
  | completed hpos => simp
  | failed hmax => simp [hmax]
  | cancelled => simp [eq_comm]

theorem Told.tallies_iff {l : List (ActivationStatus × Nat)} (h : Told max k l) :
    ((l.map Prod.snd).Pairwise (· ≥ ·) ∧
      ∀ p ∈ l, p.1.isTerminal = true → p.2 = l.countP (·.1 = .executing)) ↔
      ¬ ((.cancelled, 0) ∈ l ∧ 0 < l.countP (·.1 = .executing)) := by
  have hlive {n : Nat} : ∀ p ∈ started n, p.1.isTerminal = true → p.2 = n := by
    intro p hp ht
    rw [not_isTerminal_of_started hp] at ht
    cases ht
  cases k with
  | some n =>
    obtain ⟨-, rfl⟩ := h
    rw [countP_started]
    exact iff_of_true ⟨pairwise_started n, hlive⟩ fun hc => cancelled_not_mem_started n hc.1
  | none =>
    obtain ⟨n, e, -, he, rfl⟩ := h
    -- Both sides say that the last report counts the attempts that were made.
    have hmem : (.cancelled, 0) ∈ e :: started n ↔ e = (.cancelled, 0) := by
      simp [cancelled_not_mem_started, eq_comm]
    rw [he.countP, hmem, ← he.snd_eq_iff, List.map_cons, List.pairwise_cons,
      List.forall_mem_cons]
    constructor
    · rintro ⟨-, hfinal, -⟩
      exact hfinal he.isTerminal
    · intro hen
      refine ⟨⟨?_, pairwise_started n⟩, fun _ => hen, hlive⟩
      intro k hk
      rw [hen]
      exact le_of_mem_started hk

namespace Records

theorem tallies_iff (h : s.Records units k) (u : ι) :
    Tallies s.log u ↔ ¬ Understated s.log u := by
  have hcalls := h.log.calls u
  have hiff : Tallies s.log u ↔ ((told s.log u).map Prod.snd).Pairwise (· ≥ ·) ∧
      ∀ p ∈ told s.log u, p.1.isTerminal = true → p.2 = calls s.log u :=
    ⟨fun ht => ⟨ht.rising, ht.final⟩, fun ht => ⟨ht.1, ht.2⟩⟩
  rw [hiff, Understated, hcalls]
  by_cases hu : u ∈ units.map Prod.fst
  · exact (h.log.told hu).tallies_iff
  · simp [h.log.told_eq_nil hu]

theorem understated_cancel (h : s.Records units k) {u : ι} (hu : s.Live u)
    (hpos : 0 < calls s.log u) (now : Timestamp) : Understated (s.cancel now).log u := by
  obtain ⟨w, hw, rfl, ht⟩ := (h.live_iff u).mp hu
  rw [Understated, log_cancel hw ht, told_published, if_pos rfl]
  constructor
  · exact List.mem_cons_self
  · simpa [calls] using hpos

theorem understated_schedule (h : s.Records units k) {u : ι} {mode : LockMode} (hu : s.Live u)
    (hpos : 0 < calls s.log u) (hmode : (u, mode) ∉ units) (now : Timestamp) (fresh : ι) :
    Understated (s.schedule now fresh mode).1.log u := by
  obtain ⟨hmem, hcalls⟩ := h.understated_cancel hu hpos now
  have hkept : ¬ ∃ w, s.slot = some w ∧ w.mode = mode ∧ w.status.isTerminal = false := by
    rintro ⟨w, hw, hm, -⟩
    obtain ⟨v, hv, rfl, -⟩ := (h.live_iff u).mp hu
    obtain rfl := Option.some.inj (hw.symm.trans hv)
    exact hmode ((h.mode_iff hw mode).mpr hm)
  have hlog : (s.schedule now fresh mode).1.log =
      .published ⟨fresh, mode, .pending, 0, none, now⟩ :: (s.cancel now).log := by
    rw [schedule_eq_renewed hkept]
    exact log_renewed s now fresh mode
  rw [Understated, hlog, told_published]
  constructor
  · split
    · exact List.mem_cons_of_mem _ hmem
    · exact hmem
  · simpa [calls] using hcalls

end Records

structure Tally (units : List (ι × LockMode)) (s : Scheduler ι) : Prop where
  exact : ∀ u, Tallies s.log u ↔ ¬ Understated s.log u
  cancelled : ∀ u, s.Live u → 0 < calls s.log u → ∀ now, Understated (s.cancel now).log u
  replaced : ∀ u, s.Live u → 0 < calls s.log u → ∀ mode, (u, mode) ∉ units → ∀ now fresh,
    Understated (s.schedule now fresh mode).1.log u

theorem Operated.tally {config : ActivationConfig} (h : Operated config units s) :
    s.Tally units := by
  obtain ⟨k, hk⟩ := h.records
  constructor
  · exact hk.tallies_iff
  · intro u hu hpos now
    exact hk.understated_cancel hu hpos now
  · intro u hu hpos mode hmode now fresh
    exact hk.understated_schedule hu hpos hmode now fresh

theorem operated_entered :
    ∃ s : Scheduler Nat, Operated {} [(0, .lockUi)] s ∧ s.Live 0 ∧ calls s.log 0 = 1 := by
  obtain ⟨now⟩ := nonempty_timestamp
  have hlocked : Operated {} [(0, .lockUi)] _ := .schedule .new now (by decide) .lockUi
  have hstarted := Operated.step (t := .start) hlocked now rfl
  exact ⟨_, hstarted, ⟨_, rfl, rfl⟩, rfl⟩

theorem tally_entered :
    ∃ s : Scheduler Nat, Operated {} [(0, .lockUi)] s ∧ s.Live 0 ∧ 0 < calls s.log 0 ∧
      s.Tally [(0, .lockUi)] := by
  obtain ⟨s, h, hlive, hcalls⟩ := operated_entered
  exact ⟨s, h, hlive, by omega, h.tally⟩

theorem attempts_forgotten :
    ¬ ∀ (config : ActivationConfig) (units : List (Nat × LockMode)) (s : Scheduler Nat),
      Operated config units s → ∀ u, Tallies s.log u := by
  intro h
  obtain ⟨now⟩ := nonempty_timestamp
  obtain ⟨s, hs, hlive, hcalls⟩ := operated_entered
  obtain ⟨k, hk⟩ := hs.records
  obtain ⟨k', hk'⟩ := (hs.cancel now).records
  have htallies := h {} _ _ (hs.cancel now) 0
  exact (hk'.tallies_iff 0).mp htallies (hk.understated_cancel hlive (by omega) now)

end DeviceLock.Scheduler
