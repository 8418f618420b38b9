import DeviceLock.Proofs.Activation.Attempts
import DeviceLock.Proofs.Engine.Completion
import Mathlib.Data.Prod.Lex

namespace DeviceLock

open Program Relation

def Phase.remaining (max : Nat) : Phase → Nat
  | starting => 3 * max + 1
  | entering n => 3 * (max - n) + 3
  | observing n => 3 * (max - n) + 2
  | resting n => 3 * (max - (n + 1)) + 4
  | stopped => 0

namespace Scheduler

variable {ι : Type} {s s' : Scheduler ι} {w : ActivationWork ι} {t : TaskStep} {p : Phase}

def remaining (s : Scheduler ι) : Nat := s.slot.elim 0 fun w => w.phase.remaining s.maxAttempts

theorem Advances.remaining_lt (h : s.Advances w t p) :
    p.remaining s.maxAttempts < w.phase.remaining s.maxAttempts := by
  have hpos : 1 ≤ s.maxAttempts := Nat.le_max_right _ _
  have hafter (n : Nat) :
      (s.afterFailure n).remaining s.maxAttempts < 3 * (s.maxAttempts - n) + 2 := by
    unfold afterFailure
    split
    · simp only [Phase.remaining]
      omega
    · simp only [Phase.remaining]
      omega
  cases h with
  | start h =>
    simp only [h, Phase.remaining]
    omega
  | wake h =>
    simp only [h, Phase.remaining]
    omega
  | entered h =>
    simp only [h, Phase.remaining]
    omega
  | rejected h =>
    rw [h]
    exact Nat.lt_succ_of_lt (hafter _)
  | shown h =>
    simp only [h, Phase.remaining]
    omega
  | missed h =>
    rw [h]
    exact hafter _
  | panicked h =>
    rcases h with h | h
    · simp [h, Phase.remaining]
    · simp [h, Phase.remaining]

theorem remaining_step [DecidableEq ι] {now : Timestamp} (h : s.step? now t = some s') :
    s'.remaining < s.remaining := by
  obtain ⟨w, w', hstep⟩ := step_cases h
  have hmax : s'.maxAttempts = s.maxAttempts := by
    unfold maxAttempts
    rw [hstep.config]
  simp only [remaining, hstep.before, hstep.after, Option.elim_some, hmax]
  exact hstep.advances.remaining_lt

end Scheduler

namespace Machine

variable {m m' : Machine} {now : Timestamp} {a : Action} {t u : Ticket}
  {ops ops' : Multiset Operation}

/-- A job cannot end, or cannot start, before another one has ended. -/
inductive WaitsFor (m : Machine) : Ticket → Ticket → Prop
  | answer {t u : Ticket} {next : Except Fault Reply → Program (t.lane.Value × Except Fault Reply)}
      (hrun : (m.engine.queue t.lane).running = some (.wait (.await u) next))
      (ht : t.index = (m.engine.queue t.lane).ended.length)
      (hu : m.engine.answer? u = none) : WaitsFor m t u
  | turn {lane : Lane} {i k : Nat} (hk : (m.engine.queue lane).ended.length ≤ k) (hlt : k < i) :
      WaitsFor m ⟨lane, i⟩ ⟨lane, k⟩

theorem awaits_lower {lane : Lane}
    {next : Except Fault Reply → Program (lane.Value × Except Fault Reply)} (hm : m.Reachable)
    (h : (m.engine.queue lane).running = some (.wait (.await u) next)) :
    u.lane.rank < lane.rank := by
  have hasks : lane.footprint.requests (.await u) := (hm.usual.job lane _ h).1
  cases lane with
  | policy => exact hasks.elim
  | finalization => exact hasks.elim
  | requests =>
    obtain ⟨j, hj, hk⟩ := (hm.informed.job _ _ h).2.awaits.1 u rfl
    rw [hk.lane]
    rcases hj with rfl | rfl | rfl
    · decide
    · decide
    · decide

theorem WaitsFor.descends (h : m.WaitsFor t u) (hm : m.Reachable) :
    toLex (u.lane.rank, u.index) < toLex (t.lane.rank, t.index) := by
  rw [Prod.Lex.toLex_lt_toLex]
  cases h with
  | answer hrun => exact .inl (awaits_lower hm hrun)
  | turn _ hlt => exact .inr ⟨rfl, hlt⟩

theorem Reachable.waits_acyclic (hm : m.Reachable) (t : Ticket) : ¬ TransGen m.WaitsFor t t := by
  have hdescends {u : Ticket} (h : TransGen m.WaitsFor t u) :
      toLex (u.lane.rank, u.index) < toLex (t.lane.rank, t.index) := by
    induction h with
    | single h => exact h.descends hm
    | tail _ h ih => exact (h.descends hm).trans ih
  exact fun h => lt_irrefl _ (hdescends h)

/-- Every job has ended, and every call has been answered, has panicked with a collaborator that it
calls by itself, or has been given up. -/
structure Settled (m : Machine) : Prop where
  jobs : ∀ lane, (m.engine.queue lane).ended.length = (m.engine.queue lane).submitted.length
  calls : ∀ k ∈ m.engine.clients, (∃ r, k = .answered r) ∨ k = .panicked ∨ k = .dropped

theorem Quiescent.settled (h : m.Quiescent) (hm : m.Reachable) : m.Settled where
  jobs := h.all_ended hm.ordered
  calls := fun k hk => by
    cases k with
    | running p => exact absurd hk (h.clients p)
    | answered r => exact .inl ⟨r, rfl⟩
    | panicked => exact .inr (.inl rfl)
    | dropped => exact .inr (.inr rfl)

inductive Continues : Multiset Operation × Machine → Multiset Operation × Machine → Prop
  | call {ops : Multiset Operation} {m m' : Machine} {now : Timestamp} {op : Operation}
      (h : op ∈ ops) (hs : m.step? now (.call op) = some m') : Continues (ops, m) (ops.erase op, m')
  | step {ops : Multiset Operation} {m m' : Machine} {now : Timestamp} {a : Action}
      (hcall : ∀ op, a ≠ .call op) (hrestart : a ≠ .restart) (hs : m.step? now a = some m') :
      Continues (ops, m) (ops, m')

def outstanding (s : Multiset Operation × Machine) : Nat × Multiset Pending × Nat :=
  (s.1.card, s.2.backlog, s.2.engine.scheduler.remaining)

def Fewer : Nat × Multiset Pending × Nat → Nat × Multiset Pending × Nat → Prop :=
  Prod.Lex (· < ·) (Prod.Lex (CutExpand Pending.Less) (· < ·))

theorem fewer_wf : WellFounded Fewer :=
  WellFounded.prod_lex wellFounded_lt (Pending.cut_wf.prod_lex wellFounded_lt)

theorem backlog_of_activation {step : TaskStep} (h : m.step? now (.activation step) = some m') :
    m'.backlog = m.backlog ∧
      m'.engine.scheduler.remaining < m.engine.scheduler.remaining := by
  obtain ⟨s, hs, rfl⟩ := activation_cases h
  exact ⟨rfl, Scheduler.remaining_step hs⟩

theorem Continues.fewer {s s' : Multiset Operation × Machine} (h : Continues s s')
    (hm : s.2.Reachable) : Fewer (outstanding s') (outstanding s) := by
  cases h with
  | call hop hs => exact .left _ _ (Multiset.card_erase_lt_of_mem hop)
  | @step ops m m' now a hcall hrestart hs =>
    refine .right _ ?_
    have hcut (ha : a.Proceeds) : CutExpand Pending.Less m'.backlog m.backlog :=
      cut_of_step hm.usual hm.ordered hs ha
    cases a with
    | call op => exact absurd rfl (hcall op)
    | restart => exact absurd rfl hrestart
    | activation step =>
      obtain ⟨hsame, hlt⟩ := backlog_of_activation hs
      rw [hsame]
      exact .right _ hlt
    | start lane => exact .left _ _ (hcut trivial)
    | resume task c => exact .left _ _ (hcut trivial)
    | drop i => exact .left _ _ (hcut trivial)
    | callbackEnds n k result => exact .left _ _ (hcut trivial)

theorem Continues.reachable {s s' : Multiset Operation × Machine} (h : Continues s s')
    (hm : s.2.Reachable) : s'.2.Reachable := by
  cases h with
  | call _ hs => exact hm.trans (.step (P := fun _ => True) (.refl _) trivial hs)
  | step _ _ hs => exact hm.trans (.step (P := fun _ => True) (.refl _) trivial hs)

theorem Reachable.stops {s : Multiset Operation × Machine} (hm : s.2.Reachable)
    {run : Nat → Multiset Operation × Machine} (h : run 0 = s) :
    ∃ n, ¬ Continues (run n) (run (n + 1)) := by
  obtain ⟨x, hx⟩ : ∃ x, outstanding s = x := ⟨_, rfl⟩
  induction x using fewer_wf.induction generalizing s run with
  | _ x ih =>
    by_cases hfirst : Continues (run 0) (run 1)
    · rw [h] at hfirst
      let later := fun n => run (n + 1)
      obtain ⟨n, hn⟩ := ih _ (hx ▸ hfirst.fewer hm) (hfirst.reachable hm) (rfl : later 0 = _) rfl
      exact ⟨n + 1, hn⟩
    · exact ⟨0, hfirst⟩

theorem Ready.continues (h : m.Ready) (ops : Multiset Operation) :
    ∃ s, Continues (ops, m) s := by
  obtain ⟨a, m', ha, hs⟩ := h.exists_step
  refine ⟨(ops, m'), .step (fun op he => ?_) (fun he => ?_) hs⟩
  · subst he
    exact ha
  · subst he
    exact ha

/-- No job waits, directly or through others, for one that cannot start before it ends. As long as
something is unanswered some task can take a step, whatever its collaborators do. No run goes on for
ever, and when it cannot go on all operations have been called and answered. -/
theorem Reachable.deadlock_freedom (hm : m.Reachable) (ops : Multiset Operation) :
    (∀ t, ¬ TransGen m.WaitsFor t t) ∧ (¬ m.Settled → m.Ready) ∧
      (∀ run : Nat → Multiset Operation × Machine, run 0 = (ops, m) →
        ∃ n, ¬ Continues (run n) (run (n + 1))) ∧
      ∀ ops' m', ReflTransGen Continues (ops, m) (ops', m') →
        (∀ s, ¬ Continues (ops', m') s) → ops' = 0 ∧ m'.Settled := by
  refine ⟨hm.waits_acyclic, fun hn => ?_, fun run h => hm.stops h, fun ops' m' hr hstuck => ?_⟩
  · exact hm.ready_or_quiescent.resolve_right fun hq => hn (hq.settled hm)
  · have hm' : m'.Reachable := by
      suffices ∀ s, ReflTransGen Continues (ops, m) s → s.2.Reachable from this _ hr
      intro s hs
      induction hs with
      | refl => exact hm
      | tail _ hstep ih => exact hstep.reachable ih
    constructor
    · refine Multiset.eq_zero_of_forall_notMem fun op hop => ?_
      have hs : m'.step? epoch (.call op) = some (m'.launch epoch (op.program _)) := rfl
      exact hstuck _ (.call hop hs)
    · refine (hm'.ready_or_quiescent.resolve_left fun hready => ?_).settled hm'
      obtain ⟨s, hs⟩ := hready.continues ops'
      exact hstuck s hs

def kiosk : Machine :=
  ⟨{ document := { provision := .kioskProvisioned } },
    { config := {}, capabilities := ["restrictions"] }⟩

theorem deadlock_freedom_lock :
    ∃ m, kiosk.run? epoch ([.call (.request .lock), .start .requests] ++
        Action.goesOn .requests 3) = some m ∧
      m.WaitsFor ⟨.requests, 0⟩ ⟨.policy, 0⟩ ∧ ¬ TransGen m.WaitsFor ⟨.policy, 0⟩ ⟨.policy, 0⟩ ∧
        m.Ready ∧ ∀ run : Nat → Multiset Operation × Machine,
          run 0 = (Multiset.replicate 2 .mode, m) → ∃ n, ¬ Continues (run n) (run (n + 1)) := by
  have hr : ∃ m, kiosk.run? epoch ([.call (.request .lock), .start .requests] ++
      Action.goesOn .requests 3) = some m ∧ m.WaitsFor ⟨.requests, 0⟩ ⟨.policy, 0⟩ ∧
        (m.engine.queue .requests).ended = [] ∧
          (m.engine.queue .requests).submitted = [.lock] :=
    ⟨_, rfl, .answer rfl rfl rfl, rfl, rfl⟩
  obtain ⟨m, hrun, hwaits, hended, hsubmitted⟩ := hr
  have hm : m.Reachable :=
    ⟨_, kiosk, ⟨{}, ["restrictions"], _, rfl, rfl⟩, (Reaches.refl _).run (fun _ _ => trivial) hrun⟩
  obtain ⟨hacyclic, hready, hstops, -⟩ := hm.deadlock_freedom (Multiset.replicate 2 .mode)
  refine ⟨m, hrun, hwaits, hacyclic _, hready fun h => ?_, hstops⟩
  have hlen := h.jobs .requests
  rw [hended, hsubmitted] at hlen
  cases hlen

end Machine

end DeviceLock
