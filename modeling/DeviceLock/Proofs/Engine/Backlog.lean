import DeviceLock.Proofs.Engine.Span
import Mathlib.Logic.Hydra
import Mathlib.Tactic.Abel

/-!
What is under way, as a multiset of callbacks, jobs and clients. Every step puts smaller ones in the
place of one of them, so without further calls only so many steps can be taken:
`Machine.cut_of_step` and `Pending.cut_wf`.
-/

namespace DeviceLock

open Program Relation

section

variable {M : Type} [AddCommMonoid M]

theorem sum_set_add {l : List M} {i : Nat} {x : M} (h : l[i]? = some x) (y : M) :
    (l.set i y).sum + x = l.sum + y := by
  induction l generalizing i with
  | nil => cases h
  | cons z l ih =>
    cases i with
    | zero =>
      obtain rfl : z = x := by simpa using h
      simp only [List.set_cons_zero, List.sum_cons]
      abel
    | succ i =>
      have htail := ih (i := i) (by simpa using h)
      simp only [List.set_cons_succ, List.sum_cons]
      rw [add_assoc, htail, add_assoc]

end

namespace Program

variable {α : Type}

def Below (q p : Program α) : Prop := ∃ d l, Walk p (d :: l) q

theorem Walk.eq_of_nil {p q : Program α} (h : Walk p [] q) : q = p := by
  cases h
  rfl

theorem below_wf : WellFounded fun q p : Program α => q.Below p := by
  refine ⟨fun p => ?_⟩
  induction p with
  | done r =>
    refine ⟨_, ?_⟩
    rintro q ⟨d, l, h⟩
    cases (walk_done.mp h).1
  | act a next ih =>
    refine ⟨_, ?_⟩
    rintro q ⟨d, l, h⟩
    cases h with
    | act x h =>
      cases l with
      | nil =>
        obtain rfl := h.eq_of_nil
        exact ih x
      | cons e l => exact (ih x).inv ⟨e, l, h⟩
  | wait r next ih =>
    refine ⟨_, ?_⟩
    rintro q ⟨d, l, h⟩
    cases h with
    | wait x h =>
      cases l with
      | nil =>
        obtain rfl := h.eq_of_nil
        exact ih x
      | cons e l => exact (ih x).inv ⟨e, l, h⟩

end Program

inductive Pending
  | callback
  | queued (lane : Lane)
  | running (lane : Lane) (p : Program (lane.Value × Except Fault Reply))
  | client (p : Program Reply)

def Lane.rank : Lane → Nat
  | policy | finalization => 1
  | requests => 3

def Job.lane : Job → Lane
  | policy _ => .policy
  | request _ => .requests
  | finalization _ => .finalization

namespace Pending

def rank : Pending → Nat
  | callback => 0
  | running lane _ => lane.rank
  | queued lane => lane.rank + 1
  | client _ => 5

inductive Less : Pending → Pending → Prop
  | rank {x y : Pending} (h : x.rank < y.rank) : Less x y
  | running {lane : Lane} {p q : Program (lane.Value × Except Fault Reply)} (h : q.Below p) :
      Less (running lane q) (running lane p)
  | client {p q : Program Reply} (h : q.Below p) : Less (client q) (client p)

theorem less_wf : WellFounded Less := by
  refine ⟨fun y => ?_⟩
  obtain ⟨n, hn⟩ : ∃ n, y.rank = n := ⟨_, rfl⟩
  induction n using Nat.strong_induction_on generalizing y with
  | _ n ih =>
    subst hn
    have hlower {x : Pending} (h : x.rank < y.rank) : Acc Less x := ih _ h x rfl
    cases y with
    | callback =>
      refine ⟨_, fun x h => ?_⟩
      cases h with
      | rank h => exact hlower h
    | queued lane =>
      refine ⟨_, fun x h => ?_⟩
      cases h with
      | rank h => exact hlower h
    | running lane p =>
      induction p using below_wf.induction with
      | _ p hp =>
        refine ⟨_, fun x h => ?_⟩
        cases h with
        | rank h => exact hlower h
        | running h => exact hp _ h ih hlower
    | client p =>
      induction p using below_wf.induction with
      | _ p hp =>
        refine ⟨_, fun x h => ?_⟩
        cases h with
        | rank h => exact hlower h
        | client h => exact hp _ h ih hlower

theorem cut_wf : WellFounded (CutExpand Less) := less_wf.cutExpand

end Pending

def Progress.backlog (lane : Lane) :
    Progress (lane.Value × Except Fault Reply) → Multiset Pending
  | running rest => {.running lane rest}
  | ended _ | panicked => 0

def Client.backlog : Client → Multiset Pending
  | running p => {.client p}
  | answered _ | panicked | dropped => 0

def CallbackEnd.backlog : Option CallbackEnd → Multiset Pending
  | none => {.callback}
  | some _ => 0

def Pass.backlog (p : Pass) : Multiset Pending := (p.ends.map CallbackEnd.backlog).sum

namespace JobQueue

variable {lane : Lane} {q : Queue lane.Value lane.Work}
  {progress : Progress (lane.Value × Except Fault Reply)}

def backlog (lane : Lane) (q : Queue lane.Value lane.Work) : Multiset Pending :=
  match q.running with
  | some p =>
    {.running lane p} + .replicate (q.submitted.length - (q.ended.length + 1)) (.queued lane)
  | none => .replicate (q.submitted.length - q.ended.length) (.queued lane)

theorem backlog_add (hq : q.Ordered) (jobs : List lane.Work) :
    (q.add jobs).backlog lane = q.backlog lane + .replicate jobs.length (.queued lane) := by
  unfold backlog
  simp only [JobQueue.add, List.length_append]
  cases hr : q.running with
  | some p =>
    have hlt := hq.lt (by simp [hr])
    dsimp only
    rw [show q.submitted.length + jobs.length - (q.ended.length + 1) =
      q.submitted.length - (q.ended.length + 1) + jobs.length by omega, Multiset.replicate_add]
    abel
  | none =>
    have hle := hq.le
    dsimp only
    rw [show q.submitted.length + jobs.length - q.ended.length =
      q.submitted.length - q.ended.length + jobs.length by omega, Multiset.replicate_add]

theorem backlog_settle {n : Nat} (hn : n = q.submitted.length - (q.ended.length + 1)) :
    (q.settle progress).backlog lane = progress.backlog lane + .replicate n (.queued lane) := by
  subst hn
  rcases progress with rest | (f | ⟨v, x⟩) | _
  · rfl
  · simp [backlog, settle, finish, Progress.backlog]
  · simp [backlog, settle, finish, Progress.backlog]
  · simp [backlog, settle, finish, Progress.backlog]

theorem backlog_goes_on {p : Program (lane.Value × Except Fault Reply)}
    (hp : q.running = some p) :
    (q.settle progress).backlog lane + {.running lane p} =
      q.backlog lane + progress.backlog lane := by
  rw [backlog_settle rfl, backlog, hp]
  dsimp only
  abel

theorem backlog_start (hq : q.running = none) (hlt : q.ended.length < q.submitted.length) :
    (q.settle progress).backlog lane + {.queued lane} =
      q.backlog lane + progress.backlog lane := by
  rw [backlog_settle rfl, backlog, hq]
  dsimp only
  rw [show q.submitted.length - q.ended.length =
    q.submitted.length - (q.ended.length + 1) + 1 by omega, Multiset.replicate_add,
    Multiset.replicate_one]
  abel

end JobQueue

namespace Deed

def adds (capabilities : Nat) : Deed → Multiset Pending
  | act (.submit j) _ => {.queued j.lane}
  | act (.issue _ _ _) _ => .replicate capabilities .callback
  | _ => 0

theorem rank_of_adds {n : Nat} {d : Deed} {x : Pending} (hx : x ∈ d.adds n) : x.rank < 5 := by
  cases d with
  | act a y =>
    cases a with
    | submit j =>
      obtain rfl := Multiset.mem_singleton.mp hx
      cases j <;> simp [Pending.rank, Job.lane, Lane.rank]
    | issue p d s =>
      obtain rfl := Multiset.eq_of_mem_replicate hx
      decide
    | _ => cases hx
  | request r y => cases hx

theorem rank_of_adds_within {n : Nat} {d : Deed} {x : Pending} {lane : Lane}
    (hx : x ∈ d.adds n) (hd : d.Within lane.footprint) : x.rank < lane.rank := by
  cases d with
  | act a y =>
    cases a with
    | submit j =>
      obtain rfl := Multiset.mem_singleton.mp hx
      cases lane with
      | requests => rcases hd with rfl | rfl | rfl <;> decide
      | _ => exact hd.elim
    | issue p d s =>
      obtain rfl := Multiset.eq_of_mem_replicate hx
      cases lane with
      | policy => decide
      | _ => exact hd.elim
    | _ => cases hx
  | request r y => cases hx

end Deed

def Action.Proceeds : Action → Prop
  | start _ | resume _ _ | callbackEnds _ _ _ | drop _ => True
  | call _ | activation _ | restart => False

namespace Machine

variable {m m₁ m' : Machine} {now : Timestamp} {a : Action} {d : Deed} {l : List Deed}

def backlog (m : Machine) : Multiset Pending :=
  (m.engine.queue .policy).backlog .policy + (m.engine.queue .requests).backlog .requests +
    (m.engine.queue .finalization).backlog .finalization +
      (m.engine.passes.map Pass.backlog).sum + (m.engine.clients.map Client.backlog).sum

theorem Does.backlog (h : m.Does d m') (hm : m.Ordered) :
    m'.backlog = m.backlog + d.adds m.engine.capabilities.length := by
  have hpasses : (m'.engine.passes.map Pass.backlog).sum +
      (.replicate (d.submitted .policy).length (.queued .policy) +
        .replicate (d.submitted .requests).length (.queued .requests) +
          .replicate (d.submitted .finalization).length (.queued .finalization)) =
      (m.engine.passes.map Pass.backlog).sum + d.adds m.engine.capabilities.length := by
    cases h with
    | act now a =>
      cases a with
      | submit j =>
        cases j <;>
          simp [perform, Engine.submit, Deed.submitted, Engine.added, Deed.adds, Job.lane]
      | issue p d s =>
        simp [perform, record, Deed.submitted, Deed.adds, Pass.backlog, CallbackEnd.backlog,
          Multiset.nsmul_singleton]
      | _ => simp [perform, record, Deed.submitted, Deed.adds]
    | request h =>
      obtain ⟨k, hk⟩ := respond_engine h
      rw [hk]
      simp [Deed.submitted, Deed.adds]
  have hqueue (lane : Lane) : (m'.engine.queue lane).backlog lane =
      (m.engine.queue lane).backlog lane +
        .replicate (d.submitted lane).length (.queued lane) := by
    rw [h.queue, JobQueue.backlog_add (hm lane)]
  calc m'.backlog
      = (m.engine.queue .policy).backlog .policy + (m.engine.queue .requests).backlog .requests +
          (m.engine.queue .finalization).backlog .finalization +
            (m.engine.clients.map Client.backlog).sum +
              ((m'.engine.passes.map Pass.backlog).sum +
                (.replicate (d.submitted .policy).length (.queued .policy) +
                  .replicate (d.submitted .requests).length (.queued .requests) +
                    .replicate (d.submitted .finalization).length (.queued .finalization))) := by
        rw [Machine.backlog, hqueue, hqueue, hqueue, h.clients]
        abel
    _ = m.backlog + d.adds m.engine.capabilities.length := by
        rw [hpasses, Machine.backlog]
        abel

theorem Does.ordered (h : m.Does d m') (hm : m.Ordered) : m'.Ordered := fun lane => by
  rw [h.queue]
  exact (hm lane).add _

theorem Does.capabilities (h : m.Does d m') :
    m'.engine.capabilities = m.engine.capabilities := by
  cases h with
  | act now a =>
    cases a with
    | submit j => cases j <;> rfl
    | _ => rfl
  | request h =>
    obtain ⟨k, hk⟩ := respond_engine h
    rw [hk]

theorem Plays.backlog (h : m.Plays l m') (hm : m.Ordered) :
    m'.backlog = m.backlog + (l.map (Deed.adds m.engine.capabilities.length)).sum := by
  induction h with
  | nil m => simp
  | cons hd _ ih =>
    rw [ih (hd.ordered hm), hd.backlog hm, hd.capabilities, List.map_cons, List.sum_cons]
    abel

theorem exists_backlog_put (m : Machine) (lane : Lane) :
    ∃ z, ∀ q, backlog { m with engine := m.engine.put lane q } = q.backlog lane + z := by
  cases lane with
  | policy =>
    refine ⟨(m.engine.queue .requests).backlog .requests +
      (m.engine.queue .finalization).backlog .finalization +
        (m.engine.passes.map Pass.backlog).sum + (m.engine.clients.map Client.backlog).sum,
      fun q => ?_⟩
    simp only [backlog, Engine.put, Engine.queue]
    abel
  | requests =>
    refine ⟨(m.engine.queue .policy).backlog .policy +
      (m.engine.queue .finalization).backlog .finalization +
        (m.engine.passes.map Pass.backlog).sum + (m.engine.clients.map Client.backlog).sum,
      fun q => ?_⟩
    simp only [backlog, Engine.put, Engine.queue]
    abel
  | finalization =>
    refine ⟨(m.engine.queue .policy).backlog .policy +
      (m.engine.queue .requests).backlog .requests +
        (m.engine.passes.map Pass.backlog).sum + (m.engine.clients.map Client.backlog).sum,
      fun q => ?_⟩
    simp only [backlog, Engine.put, Engine.queue]
    abel

theorem backlog_settle {lane : Lane} {progress : Progress (lane.Value × Except Fault Reply)}
    {x : Pending} (h : ((m.engine.queue lane).settle progress).backlog lane + {x} =
      (m.engine.queue lane).backlog lane + progress.backlog lane) :
    (m.settle lane progress).backlog + {x} = m.backlog + progress.backlog lane := by
  obtain ⟨z, hz⟩ := exists_backlog_put m lane
  have hsame : m.backlog = (m.engine.queue lane).backlog lane + z := by
    rw [← hz]
    cases lane <;> rfl
  rw [settle, hz, hsame, add_right_comm, h]
  abel

theorem backlog_client {i : Nat} {p : Program Reply} {k : Client}
    (hp : m.engine.clients[i]? = some (.running p)) :
    backlog { m with engine.clients := m.engine.clients.set i k } + {.client p} =
      m.backlog + k.backlog := by
  have hsum := sum_set_add (l := m.engine.clients.map Client.backlog) (i := i)
    (x := Client.backlog (.running p)) (by rw [List.getElem?_map, hp]; rfl) k.backlog
  have hqueue (lane : Lane) :
      ({ m.engine with clients := m.engine.clients.set i k } : Engine).queue lane =
        m.engine.queue lane := by
    cases lane <;> rfl
  simp only [backlog, hqueue, List.map_set]
  rw [add_assoc, show ({.client p} : Multiset Pending) = Client.backlog (.running p) from rfl,
    hsum]
  abel

theorem backlog_callback {n k : Nat} {p : Pass} {result : CallbackEnd}
    (hp : m.engine.passes[n]? = some p) (hk : p.ends[k]? = some none) :
    backlog { m with
      engine.passes := m.engine.passes.set n { p with ends := p.ends.set k (some result) } } +
        {.callback} = m.backlog := by
  have hends : Pass.backlog { p with ends := p.ends.set k (some result) } + {.callback} =
      p.backlog := by
    have hsum := sum_set_add (l := p.ends.map CallbackEnd.backlog) (i := k)
      (x := CallbackEnd.backlog none) (by rw [List.getElem?_map, hk]; rfl)
      (CallbackEnd.backlog (some result))
    rw [← List.map_set] at hsum
    exact hsum.trans (add_zero _)
  have hsum := sum_set_add (l := m.engine.passes.map Pass.backlog) (i := n) (x := p.backlog)
    (by rw [List.getElem?_map, hp]; rfl)
    (Pass.backlog { p with ends := p.ends.set k (some result) })
  rw [← hends, ← add_assoc, add_right_comm] at hsum
  have hsum := add_right_cancel hsum
  have hqueue (lane : Lane) (ps : List Pass) :
      ({ m.engine with passes := ps } : Engine).queue lane = m.engine.queue lane := by
    cases lane <;> rfl
  simp only [backlog, hqueue, List.map_set]
  rw [← hsum]
  abel

theorem open_of_callbackEnds {n k : Nat} {result : CallbackEnd}
    (h : m.step? now (.callbackEnds n k result) = some m') :
    ∃ p, m.engine.passes[n]? = some p ∧ p.ends[k]? = some none := by
  obtain ⟨p, hp, h⟩ := Option.bind_eq_some_iff.mp (show m.endCallback? n k result = some m' from h)
  split at h
  · rename_i hk
    exact ⟨p, hp, hk⟩
  · cases h

theorem running_of_drop {i : Nat} (h : m.step? now (.drop i) = some m') :
    ∃ p, m.engine.clients[i]? = some (.running p) := by
  simp only [step?, drop?] at h
  split at h
  · rename_i p hp
    exact ⟨p, hp⟩
  · cases h

theorem less_of_adds {n : Nat} {y : Pending}
    (hl : ∀ d ∈ l, ∀ x ∈ d.adds n, x.rank < y.rank) :
    ∀ x ∈ (l.map (Deed.adds n)).sum, x.Less y := by
  induction l with
  | nil => simp
  | cons d l ih =>
    obtain ⟨hd, hl⟩ := List.forall_mem_cons.mp hl
    intro x hx
    rw [List.map_cons, List.sum_cons, Multiset.mem_add] at hx
    exact hx.elim (fun hx => .rank (hd x hx)) (ih hl x)

theorem Plays.cut {y : Pending} {s : Multiset Pending} (h : m.Plays l m₁) (hm : m.Ordered)
    (hs : m'.backlog + {y} = m₁.backlog + s)
    (hl : ∀ d ∈ l, ∀ x ∈ d.adds m.engine.capabilities.length, x.rank < y.rank)
    (hless : ∀ x ∈ s, x.Less y) : CutExpand Pending.Less m'.backlog m.backlog := by
  refine ⟨(l.map (Deed.adds m.engine.capabilities.length)).sum + s, y, fun x hx => ?_, ?_⟩
  · exact (Multiset.mem_add.mp hx).elim (less_of_adds hl x) (hless x)
  · rw [hs, h.backlog hm, add_assoc]

theorem start_cut {lane : Lane} (hm : m.Follows .usual) (ho : m.Ordered)
    (h : m.step? now (.start lane) = some m') : CutExpand Pending.Less m'.backlog m.backlog := by
  have hwithin := (hm.step h (admits_usual m now _)).1
  obtain ⟨j, hj, rfl⟩ := start_cases h
  obtain ⟨hplays, hafter⟩ := advance_after m now (m.opening lane j)
  have hadd := (advance_turn m now (m.opening lane j)).queue lane
  have hidle : (m.engine.queue lane).running = none := idle_of_next hj
  simp only [log, hj, Regime.of, Action.lane?] at hwithin
  refine hplays.cut ho (backlog_settle (JobQueue.backlog_start ?_ ?_)) (fun d hd x hx => ?_)
    fun x hx => ?_
  · rw [hadd]
    exact hidle
  · rw [hadd, JobQueue.add_ended, JobQueue.add, List.length_append]
    exact Nat.lt_add_right _ (JobQueue.lt_of_next hj).2
  · exact Nat.lt_succ_of_lt (Deed.rank_of_adds_within hx (hwithin d hd))
  · generalize (m.advance now (m.opening lane j)).2 = progress at hafter hx
    cases hafter with
    | running _ =>
      obtain rfl := Multiset.mem_singleton.mp hx
      exact .rank (Nat.lt_succ_self _)
    | ended _ => cases hx

theorem resumed_cut {α : Type} {c : Conduct} {p : Program α} {progress : Progress α} {y : Pending}
    {s : Multiset Pending} (ho : m.Ordered) (hres : m.resume? now c p = some (m₁, progress))
    (hs : m'.backlog + {y} = m₁.backlog + s)
    (hl : ∀ d ∈ m.answered now c p, ∀ x ∈ d.adds m.engine.capabilities.length, x.rank < y.rank)
    (hrest : ∀ x ∈ s, ∃ rest, progress = .running rest ∧ (rest.Below p → x.Less y)) :
    CutExpand Pending.Less m'.backlog m.backlog := by
  obtain ⟨r, next, rfl, ⟨rfl, -, hr⟩ | ⟨x, m₂, hr, hadv, heq⟩⟩ := resume_after hres
  · have hsame : m₁.backlog = m.backlog := by
      simp only [backlog, (respond_of_panicked hr).2]
    rw [hsame] at hs
    refine ⟨s, y, fun x hx => ?_, hs⟩
    obtain ⟨rest, hpanicked, -⟩ := hrest x hx
    cases hpanicked
  · obtain ⟨hplays, hafter⟩ := advance_after m₂ now (next x)
    rw [hadv] at hplays hafter
    rw [heq] at hl
    have hplays : m.Plays (.request r x :: m₂.deeds now (next x)) m₁ := .cons (.request hr) hplays
    refine hplays.cut ho hs hl fun z hz => ?_
    obtain ⟨rest, rfl, hless⟩ := hrest z hz
    cases hafter with
    | running hw => exact hless ⟨_, _, .wait x hw⟩

theorem resume_cut {lane : Lane} {c : Conduct} (hm : m.Follows .usual) (ho : m.Ordered)
    (h : m.step? now (.resume (.job lane) c) = some m') :
    CutExpand Pending.Less m'.backlog m.backlog := by
  have hwithin := (hm.step h (admits_usual m now _)).1
  obtain ⟨p, m₁, progress, hp, hres, rfl⟩ := resume_cases h
  simp only [log, hp, Regime.of, Action.lane?] at hwithin
  have hrun : (m₁.engine.queue lane).running = some p := by
    rw [(resume_turn hres).queue]
    exact hp
  refine resumed_cut ho hres (backlog_settle (JobQueue.backlog_goes_on hrun))
    (fun d hd x hx => Deed.rank_of_adds_within hx (hwithin d hd)) fun x hx => ?_
  cases progress with
  | running rest =>
    obtain rfl := Multiset.mem_singleton.mp hx
    exact ⟨rest, rfl, .running⟩
  | ended r => cases hx
  | panicked => cases hx

theorem resume_client_cut {i : Nat} {c : Conduct} (ho : m.Ordered)
    (h : m.step? now (.resume (.client i) c) = some m') :
    CutExpand Pending.Less m'.backlog m.backlog := by
  obtain ⟨p, m₁, progress, hp, hres, rfl⟩ := resume_client_cases h
  rw [← (resume_turn hres).clients] at hp
  refine resumed_cut ho hres (backlog_client hp) (fun d _ x hx => Deed.rank_of_adds hx)
    fun x hx => ?_
  cases progress with
  | running rest =>
    obtain rfl := Multiset.mem_singleton.mp hx
    exact ⟨rest, rfl, .client⟩
  | ended r => cases hx
  | panicked => cases hx

theorem cut_of_step (hm : m.Follows .usual) (ho : m.Ordered) (h : m.step? now a = some m')
    (ha : a.Proceeds) : CutExpand Pending.Less m'.backlog m.backlog := by
  cases a with
  | start lane => exact start_cut hm ho h
  | resume t c =>
    cases t with
    | job lane => exact resume_cut hm ho h
    | client i => exact resume_client_cut ho h
  | callbackEnds n k result =>
    obtain ⟨p, hp, hk⟩ := open_of_callbackEnds h
    obtain ⟨q, hq, rfl⟩ := callbackEnds_cases h
    obtain rfl := Option.some.inj (hp.symm.trans hq)
    exact ⟨0, .callback, by simp, (backlog_callback hp hk).trans (add_zero _).symm⟩
  | drop i =>
    obtain ⟨p, hp⟩ := running_of_drop h
    obtain rfl := drop_cases h
    exact ⟨0, .client p, by simp, backlog_client hp⟩
  | call op => exact ha.elim
  | activation t => exact ha.elim
  | restart => exact ha.elim

end Machine

end DeviceLock
