import DeviceLock.Proofs.Engine.Span
import DeviceLock.Proofs.Program.Unprovisioned

namespace DeviceLock

open Program

namespace DeviceRequest

theorem program_unprovisioned (config : EngineConfig) (r : DeviceRequest) :
    ∃ next, r.program config = .wait .cursor next ∧
      (∀ (m : Machine) (now : Timestamp), m.advance now (next (.ok .unprovisioned)) =
        if r.Barred config.device.lenientClear m.engine.pseudo then
          (m, .ended (.error (.refused .deviceCleared)))
        else
          ({ m with engine.pseudo := r.target }, .ended (.ok ((), .ok (.device r.target))))) ∧
        ∀ x, x ≠ .ok .unprovisioned → (next x).Within .retaining := by
  rw [program, carryOut_eq]
  refine ⟨_, rfl, fun m now => ?_, fun x hx => ?_⟩
  · have hplan := plan_unprovisioned config.device.lenientClear m.engine.pseudo r
    have hread : m.perform now .pseudo = (m, m.engine.pseudo) := rfl
    change m.advance now (act .pseudo _) = _
    by_cases h : r.Barred config.device.lenientClear m.engine.pseudo
    · rw [if_pos h] at hplan ⊢
      simp only [Machine.advance, hread, Program.bind, pure, hplan]
      rfl
    · rw [if_neg h] at hplan ⊢
      simp only [Machine.advance, hread, Program.bind, pure, hplan]
      rfl
  · cases x with
    | error f => trivial
    | ok s =>
      have hs : s ≠ .unprovisioned := fun h => hx (h ▸ rfl)
      change (((if s = .unprovisioned then _ else (do return (s, (← load).device))) >>= _) >>= _ :
        Program _).Within _
      rw [if_neg hs]
      simp only [bind_assoc, pure_bind]
      refine within_bind (load_within trivial) fun d => ?_
      split
      · exact within_done _
      · rename_i hplan
        exact absurd (plan_pseudo hplan).1 hs
      · exact within_bind (persist_retaining r s _) fun _ => within_pure _

end DeviceRequest

theorem JobQueue.outcomes_settle {σ ι : Type} {q q' : Queue σ ι} {j : ι} {jobs : List ι}
    {progress : Progress (σ × Except Fault Reply)} (h : q.Ordered)
    (hj : q.submitted[q.ended.length]? = some j) (hq : q' = (q.add jobs).settle progress) :
    (∃ rest, progress = .running rest ∧ q'.outcomes = q.outcomes) ∨
      q'.running = none ∧ ∃ e, q'.outcomes = q.outcomes ++ [(j, e)] := by
  subst hq
  have hgrows : q.submitted <+: q.submitted ++ jobs := List.prefix_append _ _
  have hfinish (e : Ending σ (Except Fault Reply) Fault) :
      ((q.add jobs).finish e).outcomes = q.outcomes ++ [(j, e)] := outcomes_next h hgrows hj rfl
  rcases progress with rest | (f | ⟨v, x⟩) | _
  · exact .inl ⟨rest, rfl, outcomes_same h hgrows rfl⟩
  · exact .inr ⟨rfl, _, hfinish _⟩
  · exact .inr ⟨rfl, _, hfinish _⟩
  · exact .inr ⟨rfl, _, hfinish _⟩

namespace Machine

variable {m m₁ m' : Machine} {now : Timestamp} {a : Action} {c : Conduct} {r : DeviceRequest}

def Unread (m : Machine) : Prop :=
  ∀ p, m.engine.requests.running = some p →
    ∃ r, m.engine.requests.submitted[m.engine.requests.ended.length]? = some r ∧
      p = r.program m.engine.config

def handled (m : Machine) (r : DeviceRequest) : Machine :=
  { m with engine := { m.engine with
      cursor := some .unprovisioned
      pseudo := r.moved m.engine.config.device.lenientClear m.engine.pseudo
      requests := m.engine.requests.finish
        (r.ending m.engine.config.device.lenientClear m.engine.pseudo) } }

structure Finds (m : Machine) (c : Conduct) : Prop where
  position : m.core.position = .unprovisioned
  read : m.engine.cursor = none → c.store = .ok

theorem Finds.respond (h : m.Finds c) :
    m.respond c .cursor =
      ({ m with engine.cursor := some .unprovisioned }, .answer (.ok .unprovisioned)) := by
  obtain ⟨hp, hc⟩ := h
  obtain ⟨w, e⟩ := m
  simp only [core, Core.position] at hp
  unfold Machine.respond
  cases hcursor : e.cursor with
  | none =>
    rw [hcursor] at hp
    have hp : w.document.provision = .unprovisioned := hp
    simp only [hp, hc hcursor]
  | some s =>
    rw [hcursor] at hp
    obtain rfl : s = .unprovisioned := hp
    dsimp only
    rw [← hcursor]

theorem start_unread (h : m.engine.requests.next? = some r) (now : Timestamp) :
    m.step? now (.start .requests) =
      some { m with engine.requests := m.engine.requests.run (r.program m.engine.config) } :=
  have hnext : (m.engine.queue .requests).next? = some r := h
  start_of_next hnext now

theorem start_requests_cases (hs : m.step? now (.start .requests) = some m') :
    ∃ r, m.engine.requests.next? = some r ∧
      m' = { m with engine.requests := m.engine.requests.run (r.program m.engine.config) } := by
  obtain ⟨r, hr, -⟩ := start_cases hs
  exact ⟨r, hr, Option.some.inj (hs.symm.trans (start_unread hr now))⟩

theorem Finds.resume (h : m.Finds c)
    (hr : m.engine.requests.running = some (r.program m.engine.config)) (now : Timestamp) :
    m.step? now (.resume (.job .requests) c) = some (m.handled r) := by
  obtain ⟨next, hnext, hadvance, -⟩ := r.program_unprovisioned m.engine.config
  have hresumed : m.resume? now c (r.program m.engine.config) =
      some ({ m with engine.cursor := some .unprovisioned }.advance now
        (next (.ok .unprovisioned))) := by
    rw [hnext, resume?, h.respond]
  have hrunning : (m.engine.queue .requests).running = some (r.program m.engine.config) := hr
  rw [resume_of_running hrunning hresumed, hadvance]
  congr 1
  by_cases h : r.Barred m.engine.config.device.lenientClear m.engine.pseudo
  · rw [if_pos h, handled, DeviceRequest.ending, DeviceRequest.moved, if_pos h, if_pos h]
    rfl
  · rw [if_neg h, handled, DeviceRequest.ending, DeviceRequest.moved, if_neg h, if_neg h]
    rfl

inductive Lingers : Machine → Machine → Prop
  | refl (m : Machine) : Lingers m m
  | step {m m₁ m' : Machine} {now : Timestamp} {a : Action} (h : Lingers m m₁) (hr : a ≠ .restart)
      (ha : ∀ c, a = .resume (.job .requests) c → m₁.Finds c) (hs : m₁.step? now a = some m') :
      Lingers m m'

inductive Asks (m : Machine) : Action → Prop
  | call (r : DeviceRequest) : Asks m (.call (.request r))
  | start : Asks m (.start .requests)
  | resume {c : Conduct} (hu : m.Unread) (h : m.Finds c) : Asks m (.resume (.job .requests) c)
  | answer {i k : Nat} {c : Conduct}
      (h : m.engine.clients[i]? = some (.running (.wait (.await ⟨.requests, k⟩) .done))) :
      Asks m (.resume (.client i) c)
  | drop {i k : Nat}
      (h : m.engine.clients[i]? = some (.running (.wait (.await ⟨.requests, k⟩) .done))) :
      Asks m (.drop i)

inductive Asked : Machine → Machine → Prop
  | refl (m : Machine) : Asked m m
  | step {m m₁ m' : Machine} {now : Timestamp} {a : Action} (h : Asked m m₁) (ha : m₁.Asks a)
      (hs : m₁.step? now a = some m') : Asked m m'

structure Untouched (m m' : Machine) : Prop where
  world : m'.world = m.world
  position : m'.core.position = m.core.position
  cursor : ∀ s, m.engine.cursor = some s → m'.engine.cursor = some s
  policy : m'.engine.policy = m.engine.policy
  finalization : m'.engine.finalization = m.engine.finalization
  scheduler : m'.engine.scheduler = m.engine.scheduler
  passes : m'.engine.passes = m.engine.passes

theorem Untouched.refl (m : Machine) : m.Untouched m :=
  ⟨rfl, rfl, fun _ => id, rfl, rfl, rfl, rfl⟩

theorem Untouched.trans (h : m.Untouched m₁) (h' : m₁.Untouched m') : m.Untouched m' where
  world := h'.world.trans h.world
  position := h'.position.trans h.position
  cursor := fun s hs => h'.cursor s (h.cursor s hs)
  policy := h'.policy.trans h.policy
  finalization := h'.finalization.trans h.finalization
  scheduler := h'.scheduler.trans h.scheduler
  passes := h'.passes.trans h.passes

theorem untouched_asked (q : Queue Unit DeviceRequest) (clients : List Client) :
    m.Untouched { m with engine := { m.engine with requests := q, clients := clients } } :=
  ⟨rfl, rfl, fun _ => id, rfl, rfl, rfl, rfl⟩

theorem untouched_handled (hp : m.core.position = .unprovisioned) (r : DeviceRequest) :
    m.Untouched (m.handled r) where
  world := rfl
  position := hp.symm
  cursor := fun s hs => by
    obtain rfl : s = .unprovisioned := by
      simpa [core, Core.position, hs] using hp
    rfl
  policy := rfl
  finalization := rfl
  scheduler := rfl
  passes := rfl

theorem Unread.resumed (hu : m.Unread) (hc : m.Finds c)
    (hs : m.step? now (.resume (.job .requests) c) = some m') :
    ∃ r, m.engine.requests.submitted[m.engine.requests.ended.length]? = some r ∧
      m' = m.handled r := by
  obtain ⟨p, -, -, hrun, -, -⟩ := resume_cases hs
  obtain ⟨r, hr, rfl⟩ := hu p hrun
  rw [hc.resume hrun] at hs
  exact ⟨r, hr, (Option.some.inj hs).symm⟩

theorem resume_await {k : Ticket} {progress : Progress Reply}
    (h : m.resume? now c (.wait (.await k) .done) = some (m₁, progress)) : m₁ = m := by
  simp only [resume?, respond] at h
  cases hk : m.engine.answer? k with
  | none => simp [hk] at h
  | some x =>
    simp only [hk, Option.elim_some, Option.some.injEq, advance, Prod.mk.injEq] at h
    exact h.1.symm

theorem Asks.untouched (ha : m.Asks a) (hs : m.step? now a = some m') :
    m.Untouched m' := by
  cases ha with
  | call r =>
    obtain rfl := call_cases hs
    exact untouched_asked _ _
  | start =>
    obtain ⟨r, -, rfl⟩ := start_requests_cases hs
    exact untouched_asked _ _
  | resume hu hc =>
    obtain ⟨r, -, rfl⟩ := hu.resumed hc hs
    exact untouched_handled hc.position r
  | answer h =>
    obtain ⟨p, m₁, progress, hp, hres, rfl⟩ := resume_client_cases hs
    obtain rfl := Client.running.inj (Option.some.inj (hp.symm.trans h))
    obtain rfl := resume_await hres
    exact untouched_asked _ _
  | drop h =>
    obtain rfl := drop_cases hs
    exact untouched_asked _ _

theorem unread_of_running
    (h : m.engine.requests.running = some (r.program m.engine.config))
    (hr : m.engine.requests.submitted[m.engine.requests.ended.length]? = some r) : m.Unread := by
  intro p hp
  exact ⟨r, hr, Option.some.inj (hp.symm.trans h)⟩

structure Decided (m m' : Machine) (es : List DeviceRequest.Outcome) : Prop where
  unread : m'.Unread
  config : m'.engine.config = m.engine.config
  outcomes : m'.engine.requests.outcomes = m.engine.requests.outcomes ++ es
  decides : DeviceRequest.Decides m.engine.config.device.lenientClear m.engine.pseudo es
    m'.engine.pseudo

theorem Decided.refl (hu : m.Unread) : m.Decided m [] :=
  ⟨hu, rfl, (List.append_nil _).symm, rfl⟩

theorem Decided.trans {es es' : List DeviceRequest.Outcome} (h : m.Decided m₁ es)
    (h' : m₁.Decided m' es') : m.Decided m' (es ++ es') where
  unread := h'.unread
  config := h'.config.trans h.config
  outcomes := by rw [h'.outcomes, h.outcomes, List.append_assoc]
  decides := DeviceRequest.decides_append.mpr ⟨_, h.decides, h.config ▸ h'.decides⟩

theorem Unread.beside (hu : m.Unread) (hlane : a.lane? ≠ some .requests) (hr : a ≠ .restart)
    (hs : m.step? now a = some m') : m'.Unread := by
  have hframe := step_frame hs hr
  have hqueue : m'.engine.requests = m.engine.requests.add _ := hframe.queue .requests hlane
  intro p hp
  rw [hqueue] at hp
  obtain ⟨r, hr, rfl⟩ := hu p hp
  refine ⟨r, ?_, by rw [hframe.config]⟩
  rw [hqueue]
  exact JobQueue.getElem?_of_grows (List.prefix_append _ _) hr

theorem Reachable.beside_requests (hm : m.Reachable) (hlane : a.lane? ≠ some .requests)
    (hr : a ≠ .restart) (hs : m.step? now a = some m') :
    m'.engine.requests.outcomes = m.engine.requests.outcomes ∧
      m'.engine.pseudo = m.engine.pseudo := by
  have hqueue : m'.engine.requests = m.engine.requests.add _ :=
    (step_frame hs hr).queue .requests hlane
  refine ⟨?_, (beside_spares hm.usual hs hlane hr).1⟩
  rw [hqueue]
  exact JobQueue.outcomes_same (hm.ordered .requests) (List.prefix_append _ _) rfl

theorem Unread.step (hm : m.Reachable) (hu : m.Unread) (hr : a ≠ .restart)
    (ha : ∀ c, a = .resume (.job .requests) c → m.Finds c) (hs : m.step? now a = some m') :
    ∃ es, m.Decided m' es := by
  by_cases hlane : a.lane? = some .requests
  · rcases Action.eq_of_lane? hlane with rfl | ⟨c, rfl⟩
    · obtain ⟨r, hr, rfl⟩ := start_requests_cases hs
      exact ⟨[], unread_of_running rfl (JobQueue.lt_of_next hr).1, rfl,
        (List.append_nil _).symm, rfl⟩
    · obtain ⟨r, hr, rfl⟩ := hu.resumed (ha c rfl) hs
      refine ⟨[(r, _)], fun p hp => ?_, rfl, ?_, rfl, rfl⟩
      · cases hp
      · exact JobQueue.outcomes_next (hm.ordered .requests) List.prefix_rfl hr rfl
  · obtain ⟨houtcomes, hpseudo⟩ := hm.beside_requests hlane hr hs
    exact ⟨[], hu.beside hlane hr hs, (step_frame hs hr).config,
      houtcomes.trans (List.append_nil _).symm, hpseudo⟩

def Late (m : Machine) : Prop := ∃ p, m.engine.requests.running = some p ∧ p.Within .retaining

theorem unread_or_late_settle {progress : Progress (Unit × Except Fault Reply)}
    (h : progress.Meets .retaining fun _ => True) :
    (m.settle .requests progress).Unread ∨ (m.settle .requests progress).Late := by
  rcases progress with rest | (f | ⟨v, x⟩) | _
  · exact .inr ⟨rest, rfl, h⟩
  · exact .inl nofun
  · exact .inl nofun
  · exact .inl nofun

theorem Unread.progress_meets {p : Program (Unit × Except Fault Reply)}
    {progress : Progress (Unit × Except Fault Reply)} (hu : m.Unread)
    (hp : m.engine.requests.running = some p) (h : m.resume? now c p = some (m₁, progress)) :
    progress.Meets .retaining fun _ => True := by
  obtain ⟨r, -, rfl⟩ := hu p hp
  obtain ⟨next, hnext, hadvance, hretaining⟩ := r.program_unprovisioned m.engine.config
  rw [hnext, resume?] at h
  rcases hx : m.respond c .cursor with ⟨m₂, _ | _ | x⟩
  · simp [hx] at h
  · simp only [hx, Option.some.injEq, Prod.mk.injEq] at h
    rw [← h.2]
    trivial
  · simp only [hx, Option.some.injEq] at h
    by_cases hunprovisioned : x = .ok .unprovisioned
    · subst hunprovisioned
      rw [hadvance] at h
      split at h <;>
        · obtain rfl : _ = progress := congrArg Prod.snd h
          trivial
    · obtain rfl : _ = progress := congrArg Prod.snd h
      exact (advance_meets m₂ now (hretaining x hunprovisioned)).2

theorem Late.resume_meets {p : Program (Unit × Except Fault Reply)}
    {progress : Progress (Unit × Except Fault Reply)} (hl : m.Late)
    (hp : m.engine.requests.running = some p) (h : m.resume? now c p = some (m₁, progress)) :
    (∀ d ∈ m.answered now c p, d.Within .retaining) ∧ progress.Meets .retaining fun _ => True := by
  obtain ⟨q, hq, hretaining⟩ := hl
  obtain rfl := Option.some.inj (hp.symm.trans hq)
  refine Machine.resume_meets h hretaining fun d _ => ?_
  cases d <;> trivial

theorem unread_or_late_step (h : m.Unread ∨ m.Late) (hs : m.step? now a = some m') :
    m'.Unread ∨ m'.Late := by
  by_cases hr : a = .restart
  · subst hr
    obtain rfl := restart_cases hs
    exact .inl nofun
  by_cases hlane : a.lane? = some .requests
  · rcases Action.eq_of_lane? hlane with rfl | ⟨c, rfl⟩
    · obtain ⟨r, hr, rfl⟩ := start_requests_cases hs
      exact .inl (unread_of_running rfl (JobQueue.lt_of_next hr).1)
    · obtain ⟨p, m₁, progress, hp, hres, rfl⟩ := resume_cases hs
      exact unread_or_late_settle
        (h.elim (fun hu => hu.progress_meets hp hres) fun hl => (hl.resume_meets hp hres).2)
  · rcases h with hu | ⟨p, hp, hretaining⟩
    · exact .inl (hu.beside hlane hr hs)
    · exact .inr ⟨p, ((step_frame hs hr).running hlane).trans hp, hretaining⟩

theorem Reachable.unread_or_late (hm : m.Reachable) : m.Unread ∨ m.Late := by
  obtain ⟨d, m₀, hf, hr⟩ := hm
  induction hr with
  | refl =>
    left
    intro p hp
    cases (hf.idle .requests).symm.trans hp
  | step _ _ hs ih => exact unread_or_late_step ih hs

theorem Lingers.reaches (h : m.Lingers m') : Reaches (fun _ => True) m m' := by
  induction h with
  | refl => exact .refl _
  | step _ _ _ hs ih => exact ih.step trivial hs

theorem Lingers.decided (h : m.Lingers m') (hm : m.Reachable) (hu : m.Unread) :
    ∃ es, m.Decided m' es := by
  induction h with
  | refl => exact ⟨[], .refl hu⟩
  | step h hr ha hs ih =>
    obtain ⟨es, hes⟩ := ih
    obtain ⟨es', hes'⟩ := hes.unread.step (hm.trans h.reaches) hr ha hs
    exact ⟨es ++ es', hes.trans hes'⟩

theorem pseudo_of_retaining {l : List Deed} {b b' : Core} (h : b.Tells l b')
    (hl : ∀ d ∈ l, d.Within .retaining) : b'.pseudo = b.pseudo := by
  induction h with
  | nil => rfl
  | @cons b b' d l _ _ ih =>
    obtain ⟨hd, hl⟩ := List.forall_mem_cons.mp hl
    refine (ih hl).trans ?_
    cases d with
    | act a x => cases a <;> first | rfl | exact hd.elim
    | request r x =>
      cases r with
      | cursor => cases x <;> rfl
      | write k => cases x <;> rfl
      | _ => rfl

inductive Parts (m m' : Machine) : Prop
  | late (hl : m'.Late) (hc : m'.engine.config = m.engine.config)
      (ho : m'.engine.requests.outcomes = m.engine.requests.outcomes)
      (hp : m'.engine.pseudo = m.engine.pseudo)
  | done {m₁ : Machine} {x : DeviceRequest.Outcome} (hm : m₁.Reachable) (hu : m₁.Unread)
      (hc : m₁.engine.config = m.engine.config)
      (ho : m₁.engine.requests.outcomes = m.engine.requests.outcomes ++ [x])
      (hp : m₁.engine.pseudo = m.engine.pseudo) (h : m₁.Lingers m')

theorem Late.step (hm : m.Reachable) (hl : m.Late) (hr : a ≠ .restart)
    (hs : m.step? now a = some m') : m.Parts m' := by
  have hm' : m'.Reachable := hm.trans (.step (P := fun _ => True) (.refl m) trivial hs)
  have hframe := step_frame hs hr
  by_cases hlane : a.lane? = some .requests
  · rcases Action.eq_of_lane? hlane with rfl | ⟨c, rfl⟩
    · obtain ⟨r, hr, -⟩ := start_cases hs
      obtain ⟨p, hp, -⟩ := hl
      cases (idle_of_next hr).symm.trans hp
    · obtain ⟨p, m₁, progress, hp, hres, rfl⟩ := resume_cases hs
      obtain ⟨hretaining, hmeets⟩ := hl.resume_meets hp hres
      have hpseudo := pseudo_of_retaining hframe.core (by simpa only [log, hp] using hretaining)
      have hordered := hm.ordered .requests
      obtain ⟨r, hr⟩ : ∃ r, (m.engine.queue .requests).submitted[
          (m.engine.queue .requests).ended.length]? = some r :=
        ⟨_, List.getElem?_eq_getElem (hordered.lt (by rw [hp]; rfl))⟩
      have hqueue : (m₁.settle .requests progress).engine.requests = _ :=
        congrArg (JobQueue.settle · progress) ((resume_turn hres).queue .requests)
      rcases JobQueue.outcomes_settle hordered hr hqueue with
        ⟨rest, rfl, houtcomes⟩ | ⟨hidle, e, houtcomes⟩
      · exact .late ⟨rest, rfl, hmeets⟩ hframe.config houtcomes hpseudo
      · refine .done hm' (fun p hp => ?_) hframe.config houtcomes hpseudo (.refl _)
        cases hidle.symm.trans hp
  · obtain ⟨houtcomes, hpseudo⟩ := hm.beside_requests hlane hr hs
    obtain ⟨p, hp, hretaining⟩ := hl
    exact .late ⟨p, (hframe.running hlane).trans hp, hretaining⟩ hframe.config houtcomes hpseudo

theorem Asks.ne_restart (h : m.Asks a) : a ≠ .restart := by
  rintro rfl
  cases h

theorem Asks.finds (h : m.Asks a) (ha : a = .resume (.job .requests) c) : m.Finds c := by
  subst ha
  cases h with
  | resume _ h => exact h

theorem Asked.lingers (h : m.Asked m') : m.Lingers m' := by
  induction h with
  | refl => exact .refl _
  | step _ ha hs ih => exact ih.step ha.ne_restart (fun _ => ha.finds) hs

theorem Asked.trans (h : m.Asked m₁) (h' : m₁.Asked m') : m.Asked m' := by
  induction h' with
  | refl => exact h
  | step _ ha hs ih => exact ih.step ha hs

theorem Asked.untouched (h : m.Asked m') : m.Untouched m' := by
  induction h with
  | refl => exact .refl _
  | step _ ha hs ih => exact ih.trans (ha.untouched hs)

theorem exists_asked_calls (m : Machine) (rs : List DeviceRequest) :
    ∃ m', m.Asked m' ∧
      m'.engine.requests.submitted = m.engine.requests.submitted ++ rs := by
  induction rs generalizing m with
  | nil => exact ⟨m, .refl m, (List.append_nil _).symm⟩
  | cons r rs ih =>
    have hcall : m.step? epoch (.call (.request r)) = some _ := rfl
    obtain ⟨m', h, hsubmitted⟩ :=
      ih (m.launch epoch (Operation.program m.engine.config (.request r)))
    refine ⟨m', (Asked.step (.refl m) (.call r) hcall).trans h, ?_⟩
    rw [hsubmitted]
    exact List.append_assoc _ [r] rs

theorem exists_asked_running (hm : m.Reachable)
    (hlt : m.engine.requests.ended.length < m.engine.requests.submitted.length) :
    ∃ m₁, m.Asked m₁ ∧ m₁.engine.requests.submitted = m.engine.requests.submitted ∧
      m₁.engine.requests.ended = m.engine.requests.ended ∧
        m₁.engine.requests.running.isSome = true := by
  cases hr : m.engine.requests.running with
  | some p => exact ⟨m, .refl m, rfl, rfl, by rw [hr]; rfl⟩
  | none =>
    have hopen : m.engine.requests.closed = false := (hm.ordered .requests).live
    obtain ⟨r, hsubmitted⟩ :
        ∃ r, m.engine.requests.submitted[m.engine.requests.ended.length]? = some r :=
      ⟨_, List.getElem?_eq_getElem hlt⟩
    have hnext : m.engine.requests.next? = some r := by
      rwa [JobQueue.next?, if_neg (by simp [hopen, hr])]
    exact ⟨_, .step (.refl m) .start (start_unread hnext epoch), rfl, rfl, rfl⟩

theorem exists_asked_ended (hm : m.Reachable) (hu : m.Unread)
    (hp : m.core.position = .unprovisioned)
    (hlt : m.engine.requests.ended.length < m.engine.requests.submitted.length) :
    ∃ m', m.Asked m' ∧ m'.engine.requests.submitted = m.engine.requests.submitted ∧
      m'.engine.requests.ended.length = m.engine.requests.ended.length + 1 := by
  obtain ⟨m₁, h, hsubmitted, hended, hrunning⟩ := exists_asked_running hm hlt
  obtain ⟨p, hrun⟩ := Option.isSome_iff_exists.mp hrunning
  obtain ⟨es, hes⟩ := h.lingers.decided hm hu
  obtain ⟨r, -, rfl⟩ := hes.unread p hrun
  have hfinds : m₁.Finds {} := ⟨h.untouched.position.trans hp, fun _ => rfl⟩
  refine ⟨_, h.step (.resume hes.unread hfinds) (hfinds.resume hrun epoch),
    hsubmitted, ?_⟩
  simp [handled, JobQueue.finish, hended]

theorem exists_asked_drained (hm : m.Reachable) (hu : m.Unread)
    (hp : m.core.position = .unprovisioned) :
    ∃ m', m.Asked m' ∧ m'.engine.requests.submitted = m.engine.requests.submitted ∧
      m'.engine.requests.ended.length = m'.engine.requests.submitted.length := by
  induction hn : m.engine.requests.submitted.length - m.engine.requests.ended.length
    generalizing m with
  | zero =>
    have hle := (hm.ordered .requests).le
    exact ⟨m, .refl m, rfl, Nat.le_antisymm hle (Nat.le_of_sub_eq_zero hn)⟩
  | succ n ih =>
    obtain ⟨m₁, h₁, hsubmitted, hended⟩ := exists_asked_ended hm hu hp (by omega)
    obtain ⟨es, hes⟩ := h₁.lingers.decided hm hu
    obtain ⟨m', h', hsubmitted', hended'⟩ := ih (hm.trans h₁.lingers.reaches) hes.unread
      (h₁.untouched.position.trans hp) (by rw [hsubmitted]; omega)
    exact ⟨m', h₁.trans h', hsubmitted'.trans hsubmitted, hended'⟩

/-- Device requests of an engine whose cursor is unprovisioned. A request that has read the cursor
earlier is apart from them. -/
structure PseudoRequests (m : Machine) : Prop where
  untouched : ∀ {m₁ m₂ : Machine} {now : Timestamp} {a : Action}, m.Lingers m₁ → m₁.Asks a →
    m₁.step? now a = some m₂ → m₁.Untouched m₂
  still : ∀ {m' : Machine}, m.Asked m' → m.Untouched m'
  settled : ∀ {m' : Machine}, m.Lingers m' → ∃ earlier es : List DeviceRequest.Outcome,
    m'.engine.requests.outcomes = m.engine.requests.outcomes ++ earlier ++ es ∧
      earlier.length ≤ 1 ∧ (m.Unread → earlier = []) ∧
        DeviceRequest.Settles m.engine.config.device.lenientClear m.engine.pseudo es
          m'.engine.pseudo
  served : m.Unread → ∀ rs : List DeviceRequest, ∃ m', m.Asked m' ∧
    m'.engine.requests.submitted = m.engine.requests.submitted ++ rs ∧
      m'.engine.requests.ended.length = m'.engine.requests.submitted.length

theorem Lingers.parts (h : m.Lingers m') (hm : m.Reachable) (hl : m.Late) : m.Parts m' := by
  induction h with
  | refl => exact .late hl rfl rfl rfl
  | step h hr ha hs ih =>
    rcases ih with ⟨hl', hc, ho, hp⟩ | ⟨hm₁, hu, hc, ho, hp, h₁⟩
    · rcases hl'.step (hm.trans h.reaches) hr hs with
        ⟨hl'', hc', ho', hp'⟩ | ⟨hm₁, hu, hc', ho', hp', h₁⟩
      · exact .late hl'' (hc'.trans hc) (ho'.trans ho) (hp'.trans hp)
      · exact .done hm₁ hu (hc'.trans hc) (ho ▸ ho') (hp'.trans hp) h₁
    · exact .done hm₁ hu hc ho hp (h₁.step hr ha hs)

theorem Reachable.pseudo_requests (hm : m.Reachable) (hp : m.core.position = .unprovisioned) :
    m.PseudoRequests where
  untouched := fun _ ha hs => ha.untouched hs
  still := Asked.untouched
  settled := fun h => by
    by_cases hu : m.Unread
    · obtain ⟨es, hes⟩ := h.decided hm hu
      exact ⟨[], es, by simpa using hes.outcomes, Nat.zero_le _, fun _ => rfl, hes.decides.settles⟩
    rcases h.parts hm (hm.unread_or_late.resolve_left hu) with
      ⟨-, -, ho, hp⟩ | @⟨m₁, x, hm₁, hu₁, hc, ho, hp, h₁⟩
    · have hnone :
          DeviceRequest.Decides m.engine.config.device.lenientClear m.engine.pseudo [] _ := hp
      exact ⟨[], [], by simpa using ho, Nat.zero_le _, fun _ => rfl, hnone.settles⟩
    · obtain ⟨es, hes⟩ := h₁.decided hm₁ hu₁
      have hdecides := hes.decides
      rw [hc, hp] at hdecides
      exact ⟨[x], es, ho ▸ hes.outcomes, Nat.le_refl _, fun h => absurd h hu, hdecides.settles⟩
  served := fun hu rs => by
    obtain ⟨m₁, h₁, hsubmitted⟩ := exists_asked_calls m rs
    obtain ⟨es, hes⟩ := h₁.lingers.decided hm hu
    obtain ⟨m', h', hsubmitted', hended⟩ := exists_asked_drained (hm.trans h₁.lingers.reaches)
      hes.unread (h₁.untouched.position.trans hp)
    exact ⟨m', h₁.trans h', hsubmitted'.trans hsubmitted, hended⟩

def forgiving : Machine :=
  ⟨{}, { config := { device := { lenientClear := true } }, capabilities := [] }⟩

theorem forgiving_fresh : Fresh {} forgiving :=
  ⟨{ device := { lenientClear := true } }, [], _, rfl, rfl⟩

def refusedEntry : List Action :=
  [Action.call (.event .ready), .start .policy] ++ Action.goesOn .policy 3 ++
    [Action.resume (.job .policy) { call := .refused "busy" }]

theorem pseudo_requests_refusedEntry :
    ∃ m : Machine, m.Reachable ∧ m.engine.cursor = some .unprovisioned ∧
      m.world.document.provision = .inProgress ∧ m.Unread ∧ m.PseudoRequests := by
  have hrun : (forgiving.run? epoch refusedEntry).any (fun m =>
      decide (m.engine.cursor = some .unprovisioned) &&
        decide (m.world.document.provision = .inProgress) && m.engine.requests.running.isNone) =
      true := rfl
  obtain ⟨m, hm, h⟩ := (Option.any_eq_true _ _).mp hrun
  simp only [Bool.and_eq_true, decide_eq_true_eq, Option.isNone_iff_eq_none] at h
  obtain ⟨⟨hcursor, hstored⟩, hidle⟩ := h
  have hreachable : m.Reachable :=
    ⟨{}, forgiving, forgiving_fresh, (Reaches.refl _).run (fun _ _ => trivial) hm⟩
  have hunread : m.Unread := fun p hp => by cases hidle.symm.trans hp
  have hposition : m.core.position = .unprovisioned := by simp [core, Core.position, hcursor]
  exact ⟨m, hreachable, hcursor, hstored, hunread, hreachable.pseudo_requests hposition⟩

end Machine

end DeviceLock
