import DeviceLock.Proofs.Activation.Timeline
import DeviceLock.Proofs.Engine.Run
import Mathlib.Logic.Relation

namespace DeviceLock

open Scheduler

namespace Timeline

variable {ι : Type} [DecidableEq ι] {config : ActivationConfig} {trial : ι → Nat → Trial}
  {units : List (ι × LockMode)} {x x' : Timeline ι} {w : ActivationWork ι} {u : ι}
  {mode : LockMode} {time : Nat} {s : Scheduler ι} {log : List (Nat × SchedulerEvent ι)}

/-- What has been heard and entered since the unit was asked for belongs to its first `n` attempts,
of which the first began at `start`. -/
structure Reached (p : Plan) (log : List (Nat × SchedulerEvent ι)) (u : ι)
    (asked start n : Nat) : Prop where
  heard : heard log u = p.reports asked start n
  entries : entries log u = p.entries start n
  failing : p.Failing n

structure Pursued (p : Plan) (x : Timeline ι) (w : ActivationWork ι) : Prop where
  live : w.status.isTerminal = false
  mode : p.mode = w.mode
  stands : ∃ asked start n, Reached p x.log w.id asked start n ∧
    p.Stands start n x.since w.phase w.lastError

def Done (p : Plan) (log : List (Nat × SchedulerEvent ι)) (u : ι) : Prop :=
  ∃ k, p.Last k ∧ p.Ended k (heard log u) (entries log u)

structure Carries (p : Plan) (x x' : Timeline ι) (w : ActivationWork ι) : Prop where
  news : ∃ (new : List (SchedulerEvent ι)) (time : Nat), (∀ e ∈ new, e.work = w.id) ∧
    x'.log = new.map (time, ·) ++ x.log
  slot : ∃ w', x'.scheduler.slot = some w' ∧ w'.id = w.id ∧
    (Pursued p x' w' ∨ w'.status.isTerminal = true ∧ Done p x'.log w.id)

section

variable {p : Plan} {asked start n : Nat}

theorem carries_setSlot {v : ActivationWork ι} (h : Reached p x.log w.id asked start n)
    (hid : v.id = w.id) (hmode : p.mode = v.mode) (hlive : v.status.isTerminal = false)
    (hstands : p.Stands start n time v.phase v.lastError) :
    Carries p x (x.tick time (x.scheduler.setSlot v)) w := by
  have hlog : (x.tick time (x.scheduler.setSlot v)).log = x.log :=
    log_goOn [] rfl time
  refine ⟨⟨[], time, by simp, hlog⟩, v, rfl, hid,
    .inl ⟨hlive, hmode, asked, start, n, ?_, hstands⟩⟩
  rw [hlog, hid]
  exact h

theorem carries_attempt (h : Reached p x.log w.id asked start n) (hmode : p.mode = w.mode)
    (hlive : w.status.isTerminal = false) (hfailing : p.Failing (n + 1)) (hn : n < p.max)
    (hcarried : w.lastError = p.carried n) (now : Timestamp) :
    Carries p x (x.tick (p.begins start n) (x.scheduler.attempt now w (n + 1))) w := by
  have hlog := log_attempt x.scheduler hlive now (n + 1)
  have hslot := attempt_slot x.scheduler now w (n + 1)
  rw [hlive] at hslot
  have hnews := log_goOn (x := x) [_, _] hlog (p.begins start n)
  refine ⟨⟨[_, _], _, by simp [SchedulerEvent.work], hnews⟩, _, hslot, rfl,
    .inl ⟨rfl, hmode, asked, start, n + 1, ?_, ?_⟩⟩
  · rw [tick, hnews]
    constructor
    · simp [h.heard, Plan.reports, hcarried]
    · simp [h.entries, Plan.entries, hmode]
    · exact hfailing
  · dsimp only
    rw [hcarried]
    exact .entering hn

theorem carries_publish {v : ActivationWork ι} {r : ActivationReport ι}
    (h : Reached p x.log w.id asked start (n + 1)) (hid : v.id = w.id) (hwork : r.work = w.id)
    (hlive : v.status.isTerminal = false) (ht : r.status.isTerminal = true)
    (hlast : p.Last (n + 1))
    (hr : p.final start n = ⟨p.judged start n, r.status, r.attempts, r.lastError⟩) :
    Carries p x (x.tick (p.judged start n) ((x.scheduler.setSlot v).publish r)) w := by
  have hlog := log_publish x.scheduler hlive (hwork.trans hid.symm)
  have hslot := slot_publish_live x.scheduler hlive (hwork.trans hid.symm)
  have hnews := log_goOn (x := x) [_] hlog (p.judged start n)
  refine ⟨⟨[_], _, by simpa [SchedulerEvent.work] using hwork, hnews⟩, _, hslot, hid,
    .inr ⟨ht, n + 1, hlast, asked, start, n, rfl, ?_⟩⟩
  rw [tick, hnews, hr]
  constructor
  · simp [hwork, h.heard]
  · simp [h.entries]

theorem carries_fail {message : String} (h : Reached p x.log w.id asked start (n + 1))
    (hmode : p.mode = w.mode) (hlive : w.status.isTerminal = false) (hn : n < p.max)
    (hmax : p.max = x.scheduler.maxAttempts) (hfits : x.scheduler.config.Fits)
    (hf : p.failure? (n + 1) = some message) (now : Timestamp) :
    Carries p x (x.tick (p.judged start n) (x.scheduler.fail now w (n + 1) message)) w := by
  unfold Scheduler.fail
  dsimp only
  by_cases hlt : n + 1 < x.scheduler.maxAttempts
  · rw [if_pos hlt, hfits.backoff hlt]
    refine carries_setSlot (v := { w with lastError := some message, phase := .resting (n + 1) })
      h rfl hmode hlive ?_
    have hstands : p.Stands start (n + 1) (p.judged start n) (.resting (n + 1))
        (p.carried (n + 1)) := .resting (hmax ▸ hlt) (by simp [hf])
    rw [Plan.carried, hf] at hstands
    exact hstands
  · rw [if_neg hlt]
    have hlast : n + 1 = p.max := by omega
    refine carries_publish
      (v := { w with lastError := some message, phase := .stopped }) h rfl rfl hlive rfl
      ⟨Nat.succ_pos n, hn, h.failing, .inr hlast⟩ ?_
    rw [Plan.final, hf]
    dsimp only
    rw [hmax]

theorem carries_observed {now : Timestamp} (h : Reached p x.log w.id asked start (n + 1))
    (hmode : p.mode = w.mode) (hlive : w.status.isTerminal = false) (hn : n < p.max)
    (hmax : p.max = x.scheduler.maxAttempts) (hfits : x.scheduler.config.Fits)
    (hw : x.scheduler.slot = some w) (hphase : w.phase = .observing (n + 1))
    (ht : (p.trial (n + 1)).rejection = none)
    (hs : x.scheduler.step? now (.observed (p.trial (n + 1)).observed) = some s) :
    Carries p x (x.tick (p.judged start n) s) w := by
  by_cases ho : (p.trial (n + 1)).observed = some w.mode
  · have hs' : (x.scheduler.setSlot { w with phase := .stopped }).publish
        ⟨w.id, w.mode, .completed, n + 1, none, now⟩ = s := by
      simpa [step?, hw, hphase, ho] using hs
    subst hs'
    have hf : p.failure? (n + 1) = none := by
      simp [Plan.failure?, Trial.failure?, ht, hmode, ho]
    refine carries_publish (v := { w with phase := .stopped }) h rfl rfl hlive rfl
      ⟨Nat.succ_pos n, hn, h.failing, .inl hf⟩ ?_
    rw [Plan.final, hf]
  · have hs' : x.scheduler.fail now w (n + 1) (notInEffect w.mode (p.trial (n + 1)).observed) =
        s := by
      simpa [step?, hw, hphase, ho] using hs
    subst hs'
    have hf : p.failure? (n + 1) = some (notInEffect w.mode (p.trial (n + 1)).observed) := by
      simp [Plan.failure?, Trial.failure?, ht, hmode, ho]
    exact carries_fail h hmode hlive hn hmax hfits hf now

theorem judged_add_backoff {c : ActivationConfig} {d : Nat}
    (hmax : p.max = max c.maxAttempts.toNat 1) (hdelay : p.delay = c.retryDelay.toNat)
    (hfits : c.Fits) (hn : n + 1 < p.max) (hd : c.backoff? (n + 1) = some d) :
    p.judged start n + d = p.begins start (n + 1) := by
  rw [hmax] at hn
  rw [hfits.backoff hn] at hd
  rw [← Option.some.inj hd, ← hdelay]
  rfl

theorem Pursued.carries {t : TaskStep} {now : Timestamp} (h : Pursued p x w)
    (hmax : p.max = x.scheduler.maxAttempts)
    (hdelay : p.delay = x.scheduler.config.retryDelay.toNat)
    (hfits : x.scheduler.config.Fits) (hw : x.scheduler.slot = some w)
    (hdue : Due x.scheduler.config p.trial w x.since t time)
    (hs : x.scheduler.step? now t = some s) : Carries p x (x.tick time s) w := by
  obtain ⟨asked, start, n, hreached, hstands⟩ := h.stands
  generalize hsince : x.since = since at hstands hdue
  generalize herror : w.lastError = error at hstands
  cases hdue with
  | start hphase _ =>
    rw [hphase] at hstands
    cases hstands
    have hs' : x.scheduler.attempt now w 1 = s := by simpa [step?, hw, hphase] using hs
    subst hs'
    have hreached : Reached p x.log w.id asked time 0 :=
      ⟨hreached.heard, hreached.entries, hreached.failing⟩
    have hpos : 0 < p.max := by
      rw [hmax]
      exact Nat.lt_of_lt_of_le Nat.zero_lt_one (Nat.le_max_right _ _)
    exact carries_attempt hreached h.mode h.live Plan.failing_one hpos herror now
  | entered hphase ht =>
    rw [hphase] at hstands
    cases hstands with
    | @entering n hn =>
      have hs' : x.scheduler.setSlot { w with phase := .observing (n + 1) } = s := by
        simpa [step?, hw, hphase] using hs
      subst hs'
      refine carries_setSlot (v := { w with phase := .observing (n + 1) }) hreached rfl h.mode
        h.live ?_
      rw [herror]
      exact .observing hn ht
  | @rejected _ message hphase ht =>
    rw [hphase] at hstands
    cases hstands with
    | @entering n hn =>
      have hs' : x.scheduler.fail now w (n + 1) (entryRejected message) = s := by
        simpa [step?, hw, hphase] using hs
      subst hs'
      have hf : p.failure? (n + 1) = some (entryRejected message) := by
        rw [Plan.failure?, Trial.failure?, ht]
      have hcarries := carries_fail hreached h.mode h.live hn hmax hfits hf now
      simpa only [Plan.judged, Trial.time, ht] using hcarries
  | observed hphase =>
    rw [hphase] at hstands
    cases hstands with
    | @observing n hn ht =>
      have hcarries := carries_observed hreached h.mode h.live hn hmax hfits hw hphase ht hs
      rw [Plan.judged, Trial.time, ht, ← Nat.add_assoc] at hcarries
      exact hcarries
  | @wake _ d hphase hd =>
    rw [hphase] at hstands
    cases hstands with
    | @resting n hn hf =>
      have hs' : x.scheduler.attempt now w (n + 1 + 1) = s := by
        simpa [step?, hw, hphase] using hs
      subst hs'
      rw [judged_add_backoff hmax hdelay hfits hn hd]
      exact carries_attempt hreached h.mode h.live (hreached.failing.succ hf) hn herror now

end

def Settled (p : Plan) (x : Timeline ι) (u : ι) : Prop :=
  (∀ w, x.scheduler.slot = some w → w.id = u → w.status.isTerminal = true) ∧
    (Cancelled x.log u ∨ Done p x.log u)

structure Sound (config : ActivationConfig) (trial : ι → Nat → Trial) (units : List (ι × LockMode))
    (x : Timeline ι) : Prop where
  operated : Operated config units x.scheduler
  unknown : ∀ u ∉ units.map Prod.fst, heard x.log u = [] ∧ entries x.log u = []
  story : ∀ u mode, (u, mode) ∈ units →
    (∃ w, x.scheduler.slot = some w ∧ w.id = u ∧ Pursued (config.plan mode (trial u)) x w) ∨
      Settled (config.plan mode (trial u)) x u

theorem Settled.congr {p : Plan} (h : Settled p x u)
    (hslot : ∀ w, x'.scheduler.slot = some w → w.id = u → w.status.isTerminal = true)
    (hlog : heard x'.log u = heard x.log u ∧ entries x'.log u = entries x.log u) :
    Settled p x' u := by
  refine ⟨hslot, ?_⟩
  rw [Cancelled, Done, hlog.1, hlog.2]
  exact h.2

theorem log_goOn_renewed (x : Timeline ι) (time : Nat) (now : Timestamp) (fresh : ι)
    (mode : LockMode) : (x.goOn time (x.scheduler.renewed now fresh mode)).log =
      (time, .published ⟨fresh, mode, .pending, 0, none, now⟩) ::
        (x.goOn time (x.scheduler.cancel now)).log := by
  obtain ⟨new, hnew⟩ := (continues_cancel x.scheduler now).log
  have hrenewed := log_renewed x.scheduler now fresh mode
  rw [← hnew] at hrenewed
  rw [log_goOn (_ :: new) hrenewed, log_goOn new hnew.symm]
  rfl

namespace Sound

theorem mem_units (h : x.Sound config trial units) (hw : x.scheduler.slot = some w) :
    (w.id, w.mode) ∈ units := by
  obtain ⟨k, hk⟩ := h.operated.records
  exact (hk.mode_iff hw _).mpr rfl

theorem others (h : x.Sound config trial units) (hw : x.scheduler.slot = some w)
    {new : List (SchedulerEvent ι)} (hnew : ∀ e ∈ new, e.work = w.id)
    (hlog : x'.log = new.map (time, ·) ++ x.log) :
    (∀ u ∉ units.map Prod.fst, heard x'.log u = [] ∧ entries x'.log u = []) ∧
      ∀ u mode, (u, mode) ∈ units → w.id ≠ u →
        (∀ v, x'.scheduler.slot = some v → v.id = u → v.status.isTerminal = true) →
          Settled (config.plan mode (trial u)) x' u := by
  have hother {u : ι} (hu : w.id ≠ u) :
      heard x'.log u = heard x.log u ∧ entries x'.log u = entries x.log u := by
    rw [hlog]
    exact append_of_ne new (fun e he => hnew e he ▸ hu) time x.log
  constructor
  · intro u hu
    have hne : w.id ≠ u := by
      rintro rfl
      exact hu (List.mem_map_of_mem (h.mem_units hw))
    rw [(hother hne).1, (hother hne).2]
    exact h.unknown u hu
  · intro u mode hu hne hslot
    rcases h.story u mode hu with ⟨v, hv, hid, -⟩ | hsettled
    · obtain rfl := Option.some.inj (hw.symm.trans hv)
      exact absurd hid hne
    · exact hsettled.congr hslot (hother hne)

theorem cancel_log (h : x.Sound config trial units) (time : Nat) (now : Timestamp) :
    (∀ u ∉ units.map Prod.fst, heard (x.goOn time (x.scheduler.cancel now)).log u = [] ∧
      entries (x.goOn time (x.scheduler.cancel now)).log u = []) ∧
      ∀ u mode, (u, mode) ∈ units →
        Settled (config.plan mode (trial u)) (x.goOn time (x.scheduler.cancel now)) u := by
  by_cases hlive : ∃ w, x.scheduler.slot = some w ∧ w.status.isTerminal = false
  · obtain ⟨w, hw, ht⟩ := hlive
    have hterminal {u : ι} : ∀ v, (x.scheduler.cancel now).slot = some v → v.id = u →
        v.status.isTerminal = true :=
      fun v hv _ => ((cancel_cases x.scheduler now).2.2 v hv).1
    have hlog := log_goOn [_] (log_cancel hw ht now) time
    obtain ⟨hunknown, hsettled⟩ := h.others hw (by simp [SchedulerEvent.work]) hlog
    refine ⟨hunknown, fun u mode hu => ?_⟩
    by_cases hne : w.id = u
    · refine ⟨hterminal, .inl ⟨⟨time, .cancelled, 0, none⟩, ?_, rfl⟩⟩
      rw [hlog]
      simp [hne]
    · exact hsettled u mode hu hne hterminal
  · have hended : ∀ w, x.scheduler.slot = some w → w.status.isTerminal = true := by
      intro w hw
      rw [← Bool.not_eq_false]
      exact fun ht => hlive ⟨w, hw, ht⟩
    rw [cancel_eq_self hended, goOn_self]
    refine ⟨h.unknown, fun u mode hu => ?_⟩
    rcases h.story u mode hu with ⟨w, hw, -, hpursued⟩ | hsettled
    · exact absurd ⟨w, hw, hpursued.live⟩ hlive
    · exact hsettled

theorem cancel (h : x.Sound config trial units) (time : Nat) (now : Timestamp) :
    (x.goOn time (x.scheduler.cancel now)).Sound config trial units :=
  ⟨h.operated.cancel now, (h.cancel_log time now).1,
    fun u mode hu => .inr ((h.cancel_log time now).2 u mode hu)⟩

theorem schedule (h : x.Sound config trial units) (time : Nat) (now : Timestamp) {fresh : ι}
    (hfresh : fresh ∉ units.map Prod.fst) (mode : LockMode) :
    (x.goOn time (x.scheduler.schedule now fresh mode).1).Sound config trial
      (enlist units (x.scheduler.schedule now fresh mode).2 mode) := by
  have hoperated := h.operated.schedule now hfresh mode
  by_cases hkept : ∃ w, x.scheduler.slot = some w ∧ w.mode = mode ∧ w.status.isTerminal = false
  · obtain ⟨w, hw, rfl, ht⟩ := hkept
    have hmem : w.id ∈ units.map Prod.fst := List.mem_map_of_mem (h.mem_units hw)
    rw [schedule_of_live hw ht, enlist, if_pos hmem, goOn_self]
    exact h
  · rw [schedule_eq_renewed hkept, enlist, if_neg hfresh] at hoperated ⊢
    obtain ⟨hunknown, hsettled⟩ := h.cancel_log time now
    have hslot := slot_renewed x.scheduler now fresh mode
    have hlog := log_goOn_renewed x time now fresh mode
    have hother {u : ι} (hu : fresh ≠ u) := append_of_ne (u := u)
      [.published ⟨fresh, mode, .pending, 0, none, now⟩]
      (by simpa [SchedulerEvent.work] using hu) time (x.goOn time (x.scheduler.cancel now)).log
    refine ⟨hoperated, ?_, ?_⟩
    · intro u hu
      rw [List.map_cons, List.mem_cons, not_or] at hu
      rw [hlog]
      obtain ⟨hheard, hentries⟩ := hother (Ne.symm hu.1)
      exact ⟨hheard.trans (hunknown u hu.2).1, hentries.trans (hunknown u hu.2).2⟩
    · intro u m hu
      rcases List.mem_cons.mp hu with heq | hu
      · obtain ⟨rfl, rfl⟩ := Prod.mk.inj heq
        obtain ⟨hheard, hentries⟩ := hunknown u hfresh
        refine .inl ⟨_, hslot, rfl, rfl, rfl, time, time, 0, ⟨?_, ?_, ?_⟩, .starting _⟩
        · rw [hlog]
          simp [hheard, Plan.reports]
        · rw [hlog]
          simp [hentries, Plan.entries]
        · exact fun i _ hlt => absurd hlt (Nat.not_lt_zero i)
      · have hne : fresh ≠ u := by
          rintro rfl
          exact hfresh (List.mem_map_of_mem hu)
        refine .inr ((hsettled u m hu).congr ?_ ?_)
        · intro w hw hid
          obtain rfl := Option.some.inj (hslot.symm.trans hw)
          exact absurd hid hne
        · rw [hlog]
          exact hother hne

theorem carries (h : x.Sound config trial units) (hfits : config.Fits)
    (ht : Ticks config trial x x') :
    Operated config units x'.scheduler ∧ ∃ w, x.scheduler.slot = some w ∧
      w.phase ≠ .stopped ∧ Pursued (config.plan w.mode (trial w.id)) x w ∧
        Carries (config.plan w.mode (trial w.id)) x x' w := by
  cases ht with
  | @step w s t time hw hdue now hs =>
    obtain rfl := h.operated.config_eq
    have hpursued : Pursued (x.scheduler.config.plan w.mode (trial w.id)) x w := by
      rcases h.story w.id w.mode (h.mem_units hw) with ⟨v, hv, -, hpursued⟩ | hsettled
      · obtain rfl := Option.some.inj (hw.symm.trans hv)
        exact hpursued
      · obtain ⟨k, hk⟩ := h.operated.records
        have hlive := hk.live_of_ne_stopped hw hdue.ne_stopped
        exact absurd (hsettled.1 w hw rfl) (Bool.eq_false_iff.mp hlive)
    exact ⟨h.operated.step now hs, w, hw, hdue.ne_stopped, hpursued,
      hpursued.carries rfl rfl hfits hw hdue hs⟩

theorem tick (h : x.Sound config trial units) (hfits : config.Fits)
    (ht : Ticks config trial x x') : x'.Sound config trial units := by
  obtain ⟨hoperated, w, hw, -, -, hcarries⟩ := h.carries hfits ht
  obtain ⟨new, time, hnew, hlog⟩ := hcarries.news
  obtain ⟨w', hw', hid, hnext⟩ := hcarries.slot
  obtain ⟨hunknown, hsettled⟩ := h.others hw hnew hlog
  refine ⟨hoperated, hunknown, fun u mode hu => ?_⟩
  by_cases hne : w.id = u
  · subst hne
    obtain ⟨k, hk⟩ := h.operated.records
    obtain rfl := (hk.mode_iff hw mode).mp hu
    rcases hnext with hpursued' | ⟨hterminal, hdone⟩
    · exact .inl ⟨w', hw', hid, hpursued'⟩
    · refine .inr ⟨?_, .inr hdone⟩
      intro v hv _
      obtain rfl := Option.some.inj (hw'.symm.trans hv)
      exact hterminal
  · refine .inr (hsettled u mode hu hne ?_)
    intro v hv hvid
    obtain rfl := Option.some.inj (hw'.symm.trans hv)
    exact absurd (hid.symm.trans hvid) hne

end Sound

theorem Timed.sound (hfits : config.Fits) (h : Timed config trial units x) :
    x.Sound config trial units := by
  induction h with
  | new => exact ⟨.new, fun _ _ => ⟨rfl, rfl⟩, fun _ _ hu => nomatch hu⟩
  | schedule _ time now hfresh mode ih => exact ih.schedule time now hfresh mode
  | cancel _ time now ih => exact ih.cancel time now
  | tick _ ht ih => exact ih.tick hfits ht

theorem Pursued.exists_ticks {p : Plan} (h : Pursued p x w) (trial : ι → Nat → Trial)
    (hw : x.scheduler.slot = some w) (hmax : p.max = x.scheduler.maxAttempts)
    (hfits : x.scheduler.config.Fits) : ∃ x', Ticks x.scheduler.config trial x x' := by
  obtain ⟨now⟩ := nonempty_timestamp
  have hticks {t : TaskStep} {time : Nat}
      (hdue : Due x.scheduler.config (trial w.id) w x.since t time)
      (hs : (x.scheduler.step? now t).isSome = true) :
      ∃ x', Ticks x.scheduler.config trial x x' := by
    obtain ⟨s, hs⟩ := Option.isSome_iff_exists.mp hs
    exact ⟨_, .step hw hdue now hs⟩
  obtain ⟨asked, start, n, -, hstands⟩ := h.stands
  generalize hphase : w.phase = phase, w.lastError = error, x.since = since at hstands
  cases hstands with
  | starting => exact hticks (.start hphase 0) (by simp [step?, hw, hphase])
  | @entering n _ =>
    cases ht : (trial w.id (n + 1)).rejection with
    | none => exact hticks (.entered hphase ht) (by simp [step?, hw, hphase])
    | some message => exact hticks (.rejected hphase ht) (by simp [step?, hw, hphase])
  | observing =>
    refine hticks (.observed hphase) ?_
    simp only [step?, hw, hphase]
    split <;> rfl
  | resting hn _ =>
    rw [hmax] at hn
    exact hticks (.wake hphase (hfits.backoff hn)) (by simp [step?, hw, hphase])

theorem Pursued.not_cancelled {p : Plan} (h : Pursued p x w) : ¬ Cancelled x.log w.id := by
  obtain ⟨asked, start, n, hreached, -⟩ := h.stands
  rintro ⟨r, hr, hc⟩
  rw [hreached.heard] at hr
  exact Plan.not_cancelled_of_mem_reports hr hc

theorem Done.not_cancelled {p : Plan} (h : Done p log u) : ¬ Cancelled log u := by
  obtain ⟨k, -, asked, start, n, -, hheard, -⟩ := h
  rintro ⟨r, hr, hc⟩
  rw [hheard] at hr
  rcases List.mem_cons.mp hr with rfl | hr
  · exact p.not_cancelled_final start n hc
  · exact Plan.not_cancelled_of_mem_reports hr hc

structure Retries (config : ActivationConfig) (trial : ι → Nat → Trial)
    (units : List (ι × LockMode)) (x : Timeline ι) : Prop where
  course : ∀ u mode, (u, mode) ∈ units → ¬ Cancelled x.log u →
    ∃ k, (config.plan mode (trial u)).Last k ∧
      (x.scheduler.Live u ∧
          (config.plan mode (trial u)).Underway k (heard x.log u) (entries x.log u) ∨
        ¬ x.scheduler.Live u ∧
          (config.plan mode (trial u)).Ended k (heard x.log u) (entries x.log u))
  ends : ∀ u mode, (u, mode) ∈ units → x.scheduler.Live u → ∀ x',
    Relation.ReflTransGen (Ticks config trial) x x' → (∀ x'', ¬ Ticks config trial x' x'') →
      Done (config.plan mode (trial u)) x'.log u
  bounded : x.scheduler.left ≤ 3 * max config.maxAttempts.toNat 1
  falls : ∀ x', Ticks config trial x x' → x'.scheduler.left < x.scheduler.left

namespace Sound

theorem not_cancelled_of_live (h : x.Sound config trial units) (hlive : x.scheduler.Live u) :
    ¬ Cancelled x.log u := by
  obtain ⟨k, hk⟩ := h.operated.records
  obtain ⟨w, hw, rfl, ht⟩ := (hk.live_iff u).mp hlive
  rcases h.story w.id w.mode (h.mem_units hw) with ⟨v, hv, hid, hpursued⟩ | ⟨hslot, -⟩
  · rw [← hid]
    exact hpursued.not_cancelled
  · exact absurd (hslot w hw rfl) (Bool.eq_false_iff.mp ht)

theorem not_cancelled_tick (h : x.Sound config trial units) (hfits : config.Fits)
    (hnot : ¬ Cancelled x.log u) (ht : Ticks config trial x x') : ¬ Cancelled x'.log u := by
  obtain ⟨-, w, hw, -, -, hcarries⟩ := h.carries hfits ht
  by_cases hu : w.id = u
  · subst hu
    obtain ⟨w', -, hid, hpursued | ⟨-, hdone⟩⟩ := hcarries.slot
    · rw [← hid]
      exact hpursued.not_cancelled
    · exact hdone.not_cancelled
  · obtain ⟨new, time, hnew, hlog⟩ := hcarries.news
    have hother := append_of_ne (u := u) new (fun e he => hnew e he ▸ hu) time x.log
    rw [Cancelled, hlog, hother.1]
    exact hnot

theorem go (h : x.Sound config trial units) (hfits : config.Fits) (hnot : ¬ Cancelled x.log u)
    (hgo : Relation.ReflTransGen (Ticks config trial) x x') :
    x'.Sound config trial units ∧ ¬ Cancelled x'.log u := by
  induction hgo with
  | refl => exact ⟨h, hnot⟩
  | tail _ ht ih => exact ⟨ih.1.tick hfits ht, ih.1.not_cancelled_tick hfits ih.2 ht⟩

end Sound

theorem Timed.retries (hfits : config.Fits) (h : Timed config trial units x) :
    x.Retries config trial units := by
  have hs := h.sound hfits
  obtain ⟨k, hk⟩ := hs.operated.records
  obtain rfl := hs.operated.config_eq
  constructor
  · intro u mode hu hcancelled
    rcases hs.story u mode hu with ⟨w, hw, rfl, hpursued⟩ | ⟨hslot, hsettled⟩
    · obtain ⟨asked, start, n, hreached, hstands⟩ := hpursued.stands
      obtain ⟨k, hlast⟩ := Plan.exists_last (p := x.scheduler.config.plan mode (trial w.id))
        (Nat.lt_of_lt_of_le Nat.zero_lt_one (Nat.le_max_right _ _))
      refine ⟨k, hlast, .inl ⟨(hk.live_iff _).mpr ⟨w, hw, rfl, hpursued.live⟩, asked, start, n,
        hlast.le_of_failing hstands.le hreached.failing, hreached.heard, hreached.entries⟩⟩
    · rcases hsettled with hc | ⟨k, hlast, hended⟩
      · exact absurd hc hcancelled
      · refine ⟨k, hlast, .inr ⟨?_, hended⟩⟩
        rw [hk.live_iff]
        rintro ⟨w, hw, hid, ht⟩
        exact Bool.false_ne_true (ht.symm.trans (hslot w hw hid))
  · intro u mode hu hlive x' hgo hrest
    obtain ⟨hs', hnot⟩ : x'.Sound x.scheduler.config trial units ∧ ¬ Cancelled x'.log u :=
      hs.go hfits (hs.not_cancelled_of_live hlive) hgo
    have hconfig := hs'.operated.config_eq
    rcases hs'.story u mode hu with ⟨w, hw, -, hpursued⟩ | ⟨-, hsettled⟩
    · obtain ⟨x'', hticks⟩ := hpursued.exists_ticks trial hw
        (by rw [maxAttempts, hconfig]; rfl) (by rw [hconfig]; exact hfits)
      rw [hconfig] at hticks
      exact absurd hticks (hrest x'')
    · exact hsettled.resolve_left hnot
  · exact hk.left_le
  · rintro x' ⟨hw, hdue, now, hstep⟩
    exact hk.left_lt hstep

def rejectedOnce (_ n : Nat) : Trial where
  rejection := if n = 1 then some "busy" else none
  observed := some .lockUi
  entering := 3
  observing := 2

theorem retries_rejectedOnce :
    ∃ x : Timeline Nat, ActivationConfig.Fits {} ∧ Timed {} rejectedOnce [(0, .lockUi)] x ∧
      x.Retries {} rejectedOnce [(0, .lockUi)] ∧
        entries x.log 0 = [(513, .lockUi), (10, .lockUi)] ∧
          heard x.log 0 = [⟨518, .completed, 2, none⟩,
            ⟨513, .executing, 2, some "lock task activation failed: busy"⟩,
            ⟨10, .executing, 1, none⟩, ⟨0, .pending, 0, none⟩] := by
  have hfits : ActivationConfig.Fits {} := rfl
  have hasked : Timed {} rejectedOnce [(0, .lockUi)] _ :=
    .schedule .new 0 Machine.epoch (by decide) .lockUi
  have hstarted := hasked.tick (.step rfl (.start rfl 10) Machine.epoch rfl)
  have hrejected := hstarted.tick
    (.step rfl (.rejected (n := 1) rfl rfl) Machine.epoch rfl)
  have hwoken := hrejected.tick (.step rfl (.wake (n := 1) (d := 500) rfl rfl) Machine.epoch rfl)
  have hentered := hwoken.tick (.step rfl (.entered (n := 2) rfl rfl) Machine.epoch rfl)
  have hended := hentered.tick (.step rfl (.observed (n := 2) rfl) Machine.epoch rfl)
  exact ⟨_, hfits, hended, hended.retries hfits, rfl, rfl⟩

end Timeline

end DeviceLock
