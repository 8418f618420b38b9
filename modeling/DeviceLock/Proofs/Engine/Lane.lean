import DeviceLock.Engine.Step

namespace DeviceLock

namespace Lane

abbrev Value : Lane → Type
  | policy => Option LockMode
  | requests => Unit
  | finalization => Option FinalizationState

abbrev Work : Lane → Type
  | policy => PolicyJob
  | requests => DeviceRequest
  | finalization => FinalizationJob

def job : (lane : Lane) → lane.Work → Job
  | policy, j => .policy j
  | requests, j => .request j
  | finalization, j => .finalization j

def program (config : EngineConfig) :
    (lane : Lane) → lane.Value → lane.Work → Program (lane.Value × Except Fault Reply)
  | policy, v, j => PolicyJob.program config v j
  | requests, _, j => DeviceRequest.program config j
  | finalization, v, j => FinalizationJob.program config v j

end Lane

namespace JobQueue

theorem getElem?_of_grows {ι : Type} {l l' : List ι} {i : Nat} {x : ι} (h : l <+: l')
    (hx : l[i]? = some x) : l'[i]? = some x := by
  obtain ⟨hi, rfl⟩ := List.getElem?_eq_some_iff.mp hx
  exact List.prefix_iff_getElem?.mp h i hi

variable {σ ι κ ρ ε : Type} (q : JobQueue σ ι κ ρ ε) (jobs : List ι)

def add (q : JobQueue σ ι κ ρ ε) (jobs : List ι) : JobQueue σ ι κ ρ ε :=
  { q with submitted := q.submitted ++ jobs }

@[simp]
theorem add_nil : q.add [] = q := by
  simp [add]

@[simp]
theorem add_add (more : List ι) : (q.add jobs).add more = q.add (jobs ++ more) := by
  simp [add]

@[simp]
theorem add_value : (q.add jobs).value = q.value := rfl

@[simp]
theorem add_ended : (q.add jobs).ended = q.ended := rfl

@[simp]
theorem add_running : (q.add jobs).running = q.running := rfl

@[simp]
theorem add_closed : (q.add jobs).closed = q.closed := rfl

theorem settle_submitted {σ ι : Type} (q : Queue σ ι)
    (progress : Progress (σ × Except Fault Reply)) :
    (q.settle progress).submitted = q.submitted := by
  rcases progress with _ | (_ | _) | _ <;> rfl

end JobQueue

namespace Engine

def queue (e : Engine) : (lane : Lane) → Queue lane.Value lane.Work
  | .policy => e.policy
  | .requests => e.requests
  | .finalization => e.finalization

def put (e : Engine) : (lane : Lane) → Queue lane.Value lane.Work → Engine
  | .policy, q => { e with policy := q }
  | .requests, q => { e with requests := q }
  | .finalization, q => { e with finalization := q }

variable (e : Engine) {lane : Lane} (q : Queue lane.Value lane.Work)

@[simp]
theorem queue_put : (e.put lane q).queue lane = q := by
  cases lane <;> rfl

theorem queue_put_of_ne {other : Lane} (h : other ≠ lane) :
    (e.put lane q).queue other = e.queue other := by
  cases lane <;> cases other <;> first | rfl | exact absurd rfl h

@[simp]
theorem put_config : (e.put lane q).config = e.config := by
  cases lane <;> rfl

@[simp]
theorem put_cursor : (e.put lane q).cursor = e.cursor := by
  cases lane <;> rfl

@[simp]
theorem put_pseudo : (e.put lane q).pseudo = e.pseudo := by
  cases lane <;> rfl

@[simp]
theorem put_passes : (e.put lane q).passes = e.passes := by
  cases lane <;> rfl

@[simp]
theorem put_clients : (e.put lane q).clients = e.clients := by
  cases lane <;> rfl

def added (lane : Lane) (j : Job) : List lane.Work :=
  match lane, j with
  | .policy, .policy j => [j]
  | .requests, .request j => [j]
  | .finalization, .finalization j => [j]
  | _, _ => []

theorem job_of_mem_added {lane : Lane} {j : Job} {w : lane.Work} (h : w ∈ added lane j) :
    lane.job w = j := by
  cases lane <;> cases j <;> simp_all [added, Lane.job]

def Keeps (e : Engine) (t : Ticket) (j : Job) : Prop :=
  ∃ w : t.lane.Work, t.lane.job w = j ∧ (e.queue t.lane).submitted[t.index]? = some w

theorem Keeps.grows {e e' : Engine} {t : Ticket} {j : Job} (h : e.Keeps t j)
    (hs : ∀ lane, (e.queue lane).submitted <+: (e'.queue lane).submitted) : e'.Keeps t j := by
  obtain ⟨w, hw, ht⟩ := h
  exact ⟨w, hw, JobQueue.getElem?_of_grows (hs t.lane) ht⟩

theorem keeps_submit (e : Engine) (j : Job) : (e.submit j).1.Keeps (e.submit j).2 j := by
  cases j <;> exact ⟨_, rfl, List.getElem?_concat_length⟩

theorem queue_submit (e : Engine) (j : Job) (lane : Lane) :
    (e.submit j).1.queue lane = (e.queue lane).add (added lane j) := by
  cases j <;> cases lane <;> simp [submit, JobQueue.submit, JobQueue.add, queue, added]

end Engine

namespace Machine

def settle (m : Machine) (lane : Lane) (progress : Progress (lane.Value × Except Fault Reply)) :
    Machine :=
  { m with engine := m.engine.put lane ((m.engine.queue lane).settle progress) }

def opening (m : Machine) (lane : Lane) (j : lane.Work) :
    Program (lane.Value × Except Fault Reply) :=
  lane.program m.engine.config (m.engine.queue lane).value j

theorem start_cases {m m' : Machine} {now : Timestamp} {lane : Lane}
    (h : m.step? now (.start lane) = some m') :
    ∃ j, (m.engine.queue lane).next? = some j ∧
      m' = (m.advance now (m.opening lane j)).1.settle lane
        (m.advance now (m.opening lane j)).2 := by
  cases lane <;>
    simp only [step?, start?, bind, Option.bind_eq_some_iff, pure, Option.some.injEq] at h <;>
    obtain ⟨j, hj, rfl⟩ := h <;> exact ⟨j, hj, rfl⟩

theorem start_of_next {m : Machine} {lane : Lane} {j : lane.Work}
    (h : (m.engine.queue lane).next? = some j) (now : Timestamp) :
    m.step? now (.start lane) =
      some ((m.advance now (m.opening lane j)).1.settle lane
        (m.advance now (m.opening lane j)).2) := by
  cases lane
  all_goals
    simp only [Engine.queue] at h
    simp only [step?, start?, h]
    rfl

theorem resume_cases {m m' : Machine} {now : Timestamp} {lane : Lane} {c : Conduct}
    (h : m.step? now (.resume (.job lane) c) = some m') :
    ∃ p m₁ progress, (m.engine.queue lane).running = some p ∧
      m.resume? now c p = some (m₁, progress) ∧ m' = m₁.settle lane progress := by
  cases lane <;>
    simp only [step?, resumeTask?, bind, Option.bind_eq_some_iff, pure, Option.some.injEq] at h <;>
    obtain ⟨p, hp, ⟨m₁, progress⟩, hr, rfl⟩ := h <;> exact ⟨p, m₁, progress, hp, hr, rfl⟩

theorem resume_of_running {m m₁ : Machine} {now : Timestamp} {lane : Lane} {c : Conduct}
    {p : Program (lane.Value × Except Fault Reply)}
    {progress : Progress (lane.Value × Except Fault Reply)}
    (hp : (m.engine.queue lane).running = some p)
    (h : m.resume? now c p = some (m₁, progress)) :
    m.step? now (.resume (.job lane) c) = some (m₁.settle lane progress) := by
  cases lane
  all_goals
    simp only [Engine.queue] at hp
    simp only [step?, resumeTask?, hp]
    simp only [bind, Option.bind_some, h]
    rfl

theorem resume_client_cases {m m' : Machine} {now : Timestamp} {i : Nat} {c : Conduct}
    (h : m.step? now (.resume (.client i) c) = some m') :
    ∃ p m₁ progress, m.engine.clients[i]? = some (.running p) ∧
      m.resume? now c p = some (m₁, progress) ∧
        m' = { m₁ with engine.clients := m₁.engine.clients.set i (.ofProgress progress) } := by
  simp only [step?, resumeTask?] at h
  split at h
  · rename_i p hp
    simp only [bind, Option.bind_eq_some_iff, pure, Option.some.injEq] at h
    obtain ⟨⟨m₁, progress⟩, hr, rfl⟩ := h
    exact ⟨p, m₁, progress, hp, hr, rfl⟩
  · cases h

theorem drop_cases {m m' : Machine} {now : Timestamp} {i : Nat}
    (h : m.step? now (.drop i) = some m') :
    m' = { m with engine.clients := m.engine.clients.set i .dropped } := by
  simp only [step?, drop?] at h
  split at h
  · exact (Option.some.inj h).symm
  · cases h

theorem callbackEnds_cases {m m' : Machine} {now : Timestamp} {pass capability : Nat}
    {result : CallbackEnd} (h : m.step? now (.callbackEnds pass capability result) = some m') :
    ∃ p, m.engine.passes[pass]? = some p ∧
      m' = { m with
        engine.passes :=
          m.engine.passes.set pass { p with ends := p.ends.set capability (some result) } } := by
  simp only [step?, endCallback?, bind, Option.bind_eq_some_iff] at h
  obtain ⟨p, hp, h⟩ := h
  split at h
  · exact ⟨p, hp, (Option.some.inj h).symm⟩
  · cases h

theorem activation_cases {m m' : Machine} {now : Timestamp} {t : TaskStep}
    (h : m.step? now (.activation t) = some m') :
    ∃ s, m.engine.scheduler.step? now t = some s ∧ m' = { m with engine.scheduler := s } := by
  simp only [step?, activationStep?, bind, Option.bind_eq_some_iff, pure, Option.some.injEq] at h
  obtain ⟨s, hs, rfl⟩ := h
  exact ⟨s, hs, rfl⟩

theorem call_cases {m m' : Machine} {now : Timestamp} {op : Operation}
    (h : m.step? now (.call op) = some m') : m' = m.launch now (op.program m.engine.config) :=
  (Option.some.inj h).symm

theorem restart_cases {m m' : Machine} {now : Timestamp} (h : m.step? now .restart = some m') :
    m' = { m with engine := m.engine.renewed } :=
  (Option.some.inj h).symm

end Machine

end DeviceLock
