import DeviceLock.Proofs.Engine.Frame

/-!
A regime says of every task what it may do. `Follows.step`: a machine keeps to a regime if the
programs that start do and if its requests are answered as the regime expects.
-/

namespace DeviceLock

structure Regime where
  lane : Lane → Footprint
  caller : Footprint
  ends : (lane : Lane) → Except Fault (lane.Value × Except Fault Reply) → Prop := fun _ _ => True

namespace Regime

def usual : Regime where
  lane := Lane.footprint
  caller := .caller fun _ => True

def of (G : Regime) (a : Action) : Footprint :=
  match a.lane? with
  | some lane => G.lane lane
  | none => G.caller

end Regime

namespace Progress

variable {α : Type} {F : Footprint} {Q : Except Fault α → Prop} {p : Program α} {l : List Deed}
  {progress : Progress α}

def Meets (F : Footprint) (Q : Except Fault α → Prop) : Progress α → Prop
  | running rest => rest.Meets F Q
  | ended r => Q r
  | panicked => True

theorem After.meets (h : progress.After p l) (hp : p.Meets F Q) (ha : ∀ d ∈ l, d.Answered F) :
    (∀ d ∈ l, d.Within F) ∧ progress.Meets F Q := by
  cases h with
  | running h => exact hp.walk h ha
  | ended h => exact hp.walk h ha

end Progress

theorem JobQueue.settle_running {σ ι : Type} {q : Queue σ ι}
    {progress : Progress (σ × Except Fault Reply)} {p : Program (σ × Except Fault Reply)}
    (h : (q.settle progress).running = some p) : progress = .running p := by
  cases progress with
  | running rest => exact congrArg Progress.running (Option.some.inj h)
  | ended r => cases r <;> cases h
  | panicked => cases h

theorem JobQueue.settle_value {σ ι : Type} {F : Footprint}
    {Q : Except Fault (σ × Except Fault Reply) → Prop} (q : Queue σ ι)
    {progress : Progress (σ × Except Fault Reply)} (h : progress.Meets F Q) :
    (q.settle progress).value = q.value ∨ ∃ x, Q (.ok ((q.settle progress).value, x)) := by
  rcases progress with rest | (f | ⟨v, x⟩) | _
  · exact .inl rfl
  · exact .inl rfl
  · exact .inr ⟨x, h⟩
  · exact .inl rfl

namespace Machine

variable {α : Type} {m m' : Machine} {now : Timestamp} {a : Action} {G : Regime} {F : Footprint}
  {Q : Except Fault α → Prop}

theorem advance_meets {p : Program α} (m : Machine) (now : Timestamp) (hp : p.Meets F Q) :
    (∀ d ∈ m.deeds now p, d.Within F) ∧ (m.advance now p).2.Meets F Q := by
  refine (advance_after m now p).2.meets hp fun d hd => ?_
  have := deeds_acts m now p d hd
  cases d with
  | act a x => trivial
  | request r x => cases this

theorem resume_meets {m₁ : Machine} {c : Conduct} {p : Program α} {progress : Progress α}
    (h : m.resume? now c p = some (m₁, progress)) (hp : p.Meets F Q)
    (ha : ∀ d ∈ m.answered now c p, d.Answered F) :
    (∀ d ∈ m.answered now c p, d.Within F) ∧ progress.Meets F Q := by
  rcases answered_after h with hafter | ⟨rfl, hl, -⟩
  · exact hafter.meets hp ha
  · rw [hl]
    exact ⟨by simp, trivial⟩

theorem answered_respond {c : Conduct} {p : Program α} {r : Request} {x : r.Answer}
    (h : .request r x ∈ m.answered now c p) : ∃ m₁, m.respond c r = (m₁, .answer x) := by
  cases p with
  | done r => simp [answered] at h
  | act a next => simp [answered] at h
  | wait q next =>
    simp only [answered] at h
    rcases hr : m.respond c q with ⟨m₂, _ | _ | y⟩
    · simp [hr] at h
    · simp [hr] at h
    · rw [hr] at h
      rcases List.mem_cons.mp h with h | h
      · cases h
        exact ⟨m₂, hr⟩
      · cases deeds_acts _ _ _ _ h

theorem log_respond {r : Request} {x : r.Answer} (h : .request r x ∈ m.log now a) :
    ∃ t c m₁, a = .resume t c ∧ m.respond c r = (m₁, .answer x) := by
  cases a with
  | call op => cases deeds_acts _ _ _ _ h
  | start lane =>
    simp only [log] at h
    split at h
    · cases deeds_acts _ _ _ _ h
    · cases h
  | resume t c =>
    cases t with
    | job lane =>
      simp only [log] at h
      split at h
      · obtain ⟨m₁, hx⟩ := answered_respond h
        exact ⟨_, c, m₁, rfl, hx⟩
      · cases h
    | client i =>
      simp only [log] at h
      split at h
      · obtain ⟨m₁, hx⟩ := answered_respond h
        exact ⟨_, c, m₁, rfl, hx⟩
      · cases h
  | _ => cases h

theorem log_fits {r : Request} {x : r.Answer} (h : .request r x ∈ m.log now a) :
    (Deed.request r x).Fits m.core := by
  obtain ⟨t, c, m₁, -, hr⟩ := log_respond h
  exact (respond_core hr).1

theorem answered_of_fits (h : ∀ r x, (Deed.request r x).Fits m.core → F.answers r x) :
    ∀ d ∈ m.log now a, d.Answered F := by
  intro d hd
  cases d with
  | act a x => trivial
  | request r x => exact h r x (log_fits hd)

structure Follows (m : Machine) (G : Regime) : Prop where
  job : ∀ lane p, (m.engine.queue lane).running = some p → p.Meets (G.lane lane) (G.ends lane)
  client : ∀ p, .running p ∈ m.engine.clients → p.Within G.caller

structure Admits (m : Machine) (now : Timestamp) (a : Action) (G : Regime) : Prop where
  start : ∀ lane j, a = .start lane → (m.engine.queue lane).next? = some j →
    (m.opening lane j).Meets (G.lane lane) (G.ends lane)
  call : ∀ op, a = .call op → (op.program m.engine.config).Within G.caller
  answers : ∀ d ∈ m.log now a, d.Answered (G.of a)

theorem Follows.settle {m₁ : Machine} {l : List Deed} {lane : Lane} (hm : m.Follows G)
    (h : m.Turn l m₁) {progress : Progress (lane.Value × Except Fault Reply)}
    (hp : progress.Meets (G.lane lane) (G.ends lane)) : (m₁.settle lane progress).Follows G where
  job := fun other p hr => by
    by_cases hne : other = lane
    · subst hne
      simp only [Machine.settle, Engine.queue_put] at hr
      obtain rfl := JobQueue.settle_running hr
      exact hp
    · rw [Machine.settle, Engine.queue_put_of_ne _ _ hne, h.queue, JobQueue.add_running] at hr
      exact hm.job other p hr
  client := fun p hmem => hm.client p (by simpa [Machine.settle, h.clients] using hmem)

theorem Follows.of_clients (hm : m.Follows G)
    (hq : ∀ lane, (m'.engine.queue lane).running = (m.engine.queue lane).running)
    (hc : ∀ p, .running p ∈ m'.engine.clients → .running p ∈ m.engine.clients ∨ p.Within G.caller) :
    m'.Follows G where
  job := fun lane p hr => hm.job lane p (hq lane ▸ hr)
  client := fun p hmem => (hc p hmem).elim (hm.client p) id

theorem running_of_progress {progress : Progress Reply} {p : Program Reply}
    (h : .running p = Client.ofProgress progress) : progress = .running p := by
  cases progress with
  | running rest => cases h; rfl
  | ended r => cases h
  | panicked => cases h

theorem Follows.launch (hm : m.Follows G) {p : Program Reply} (hp : p.Within G.caller) :
    (m.launch now p).Follows G := by
  have hturn := advance_turn m now p
  refine hm.of_clients (fun lane => ?_) fun q hmem => ?_
  · have hq := congrArg JobQueue.running (hturn.queue lane)
    rw [JobQueue.add_running] at hq
    rw [← hq]
    cases lane <;> rfl
  · simp only [Machine.launch, hturn.clients, List.mem_append, List.mem_singleton] at hmem
    rcases hmem with hmem | hmem
    · exact .inl hmem
    · have hpr := (advance_meets m now hp).2
      rw [running_of_progress hmem] at hpr
      exact .inr hpr

theorem Follows.client_goes_on (hm : m.Follows G) {m₁ : Machine} {l : List Deed} {i : Nat}
    {progress : Progress Reply} (hturn : m.Turn l m₁) (hp : progress.Meets G.caller fun _ => True) :
    Follows { m₁ with engine.clients := m₁.engine.clients.set i (.ofProgress progress) } G := by
  refine hm.of_clients (fun lane => ?_) fun q hmem => ?_
  · have hq := congrArg JobQueue.running (hturn.queue lane)
    rw [JobQueue.add_running] at hq
    rw [← hq]
    cases lane <;> rfl
  · rcases List.mem_or_eq_of_mem_set hmem with hmem | hmem
    · exact .inl (hturn.clients ▸ hmem)
    · rw [running_of_progress hmem] at hp
      exact .inr hp

theorem Follows.drop (hm : m.Follows G) (i : Nat) :
    Follows { m with engine.clients := m.engine.clients.set i .dropped } G := by
  refine hm.of_clients (fun lane => by cases lane <;> rfl) fun p hmem => ?_
  rcases List.mem_or_eq_of_mem_set hmem with hmem | hmem
  · exact .inl hmem
  · cases hmem

theorem Admits.answered_job {lane : Lane} {c : Conduct}
    {p : Program (lane.Value × Except Fault Reply)}
    (ha : m.Admits now (.resume (.job lane) c) G) (hp : (m.engine.queue lane).running = some p) :
    ∀ d ∈ m.answered now c p, d.Answered (G.lane lane) := by
  simpa only [Regime.of, Action.lane?, log, hp] using ha.answers

theorem Follows.step (hm : m.Follows G) (h : m.step? now a = some m') (ha : m.Admits now a G) :
    (∀ d ∈ m.log now a, d.Within (G.of a)) ∧ m'.Follows G := by
  have hsilent : m.log now a = [] → ∀ d ∈ m.log now a, d.Within (G.of a) := by simp_all
  cases a with
  | call op =>
    obtain rfl := call_cases h
    exact ⟨(advance_meets m now (ha.call op rfl)).1, hm.launch (ha.call op rfl)⟩
  | start lane =>
    obtain ⟨j, hj, rfl⟩ := start_cases h
    obtain ⟨hl, hp⟩ := advance_meets m now (ha.start lane j rfl hj)
    refine ⟨?_, hm.settle (advance_turn m now _) hp⟩
    simpa only [Regime.of, Action.lane?, log, hj] using hl
  | resume t c =>
    cases t with
    | job lane =>
      obtain ⟨p, m₁, progress, hp, hr, rfl⟩ := resume_cases h
      obtain ⟨hl, hpr⟩ := resume_meets hr (hm.job lane p hp) (ha.answered_job hp)
      refine ⟨?_, hm.settle (resume_turn hr) hpr⟩
      simpa only [Regime.of, Action.lane?, log, hp] using hl
    | client i =>
      obtain ⟨p, m₁, progress, hp, hr, rfl⟩ := resume_client_cases h
      have hmem := List.mem_of_getElem? hp
      have hanswers : ∀ d ∈ m.answered now c p, d.Answered G.caller := by
        simpa only [Regime.of, Action.lane?, log, hp] using ha.answers
      obtain ⟨hl, hpr⟩ := resume_meets hr (hm.client p hmem) hanswers
      refine ⟨?_, hm.client_goes_on (resume_turn hr) hpr⟩
      simpa only [Regime.of, Action.lane?, log, hp] using hl
  | drop i =>
    obtain rfl := drop_cases h
    exact ⟨hsilent rfl, hm.drop i⟩
  | callbackEnds pass capability result =>
    obtain ⟨p, -, rfl⟩ := callbackEnds_cases h
    exact ⟨hsilent rfl, hm.of_clients (fun lane => by cases lane <;> rfl) fun _ => .inl⟩
  | activation t =>
    obtain ⟨s, -, rfl⟩ := activation_cases h
    exact ⟨hsilent rfl, hm.of_clients (fun lane => by cases lane <;> rfl) fun _ => .inl⟩
  | restart =>
    obtain rfl := restart_cases h
    refine ⟨hsilent rfl, fun lane p hr => ?_, fun p hmem => ?_⟩
    · cases lane <;> cases hr
    · cases hmem

theorem Follows.value (hm : m.Follows G) (h : m.step? now a = some m') (ha : m.Admits now a G)
    (hr : a ≠ .restart) (lane : Lane) :
    (m'.engine.queue lane).value = (m.engine.queue lane).value ∨
      ∃ x, G.ends lane (.ok ((m'.engine.queue lane).value, x)) := by
  by_cases hl : a.lane? = some lane
  · rcases Action.eq_of_lane? hl with rfl | ⟨c, rfl⟩
    · obtain ⟨j, hj, rfl⟩ := start_cases h
      have hturn := advance_turn m now (m.opening lane j)
      have hp := (advance_meets m now (ha.start lane j rfl hj)).2
      simp only [Machine.settle, Engine.queue_put, hturn.queue]
      exact JobQueue.settle_value _ hp
    · obtain ⟨p, m₁, progress, hp, hres, rfl⟩ := resume_cases h
      have hturn := resume_turn hres
      have hpr := (resume_meets hres (hm.job lane p hp) (ha.answered_job hp)).2
      simp only [Machine.settle, Engine.queue_put, hturn.queue]
      exact JobQueue.settle_value _ hpr
  · exact .inl ((step_frame h hr).value hl)

theorem opening_within (m : Machine) (lane : Lane) (j : lane.Work) :
    (m.opening lane j).Within lane.footprint := by
  cases lane with
  | policy => exact PolicyJob.program_within _ _ j
  | requests => exact DeviceRequest.program_within _ j
  | finalization => exact FinalizationJob.program_within _ _ j

theorem admits_usual (m : Machine) (now : Timestamp) (a : Action) : m.Admits now a .usual where
  start := fun lane j _ _ => opening_within m lane j
  call := fun op _ => Operation.program_within _ op fun _ _ => trivial
  answers := answered_of_fits fun r x _ => by
    unfold Regime.of
    split
    · rename_i lane _
      cases lane <;> trivial
    · trivial

end Machine

end DeviceLock
