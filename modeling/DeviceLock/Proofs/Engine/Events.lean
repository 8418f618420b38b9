import DeviceLock.Proofs.Engine.CriticalPath

namespace DeviceLock

open Program

def Event.request? : Event → Option Request
  | .wrote c _ => some (.write c)
  | .called k _ => some (.call k)
  | .issued _ _ _ _ | .counted _ => none

theorem Deed.request_of_event {d : Deed} {e : Event} {r : Request} (h : d.event? = some e)
    (hr : e.request? = some r) : ∃ x, d = .request r x := by
  cases d with
  | act a x => cases a <;> cases h <;> cases hr
  | request q x => cases q <;> cases h <;> cases hr <;> exact ⟨x, rfl⟩

def Request.panic? : Request → Option Event
  | .write c => some (.wrote c .panicked)
  | .call k => some (.called k .panicked)
  | _ => none

namespace Machine

variable {α : Type} {m m₁ m' : Machine} {now : Timestamp} {a : Action} {c : Conduct} {r : Request}

def asked? (m : Machine) : Action → Option Request
  | .resume (.job lane) _ =>
    match (m.engine.queue lane).running with
    | some (.wait r _) => some r
    | _ => none
  | .resume (.client i) _ =>
    match m.engine.clients[i]? with
    | some (.running (.wait r _)) => some r
    | _ => none
  | _ => none

theorem respond_panicked_event {r : Request} (h : m.respond c r = (m', .panicked)) :
    m'.world.trace = r.panic?.toList ++ m.world.trace := by
  cases responds h <;> rfl

theorem respond_panicked_trace (h : m.respond c r = (m', .panicked)) :
    ∃ es, m'.world.trace = es ++ m.world.trace ∧ ∀ e ∈ es, e.request? = some r := by
  refine ⟨_, respond_panicked_event h, ?_⟩
  cases r <;> simp [Request.panic?, Event.request?]

def Answering (asked : Option Request) (m m' : Machine) : Prop :=
  ∃ es, m'.world.trace = es ++ m.world.trace ∧
    ∀ e ∈ es, ∀ r, e.request? = some r → asked = some r

theorem advance_answering (m : Machine) (now : Timestamp) (p : Program α) :
    Answering none m (m.advance now p).1 := by
  refine ⟨_, (advance_after m now p).1.trace, fun e he r hr => ?_⟩
  obtain ⟨d, hd, hevent⟩ := List.mem_filterMap.mp (List.mem_reverse.mp he)
  obtain ⟨x, rfl⟩ := Deed.request_of_event hevent hr
  cases deeds_acts m now p _ hd

theorem resume_answering {p : Program α} {progress : Progress α}
    (h : m.resume? now c p = some (m₁, progress)) :
    ∃ r next, p = .wait r next ∧ Answering (some r) m m₁ := by
  obtain ⟨r, next, rfl, ⟨-, -, hr⟩ | ⟨x, m₂, hr, hadv, -⟩⟩ := resume_after h
  · obtain ⟨es, hes, hall⟩ := respond_panicked_trace hr
    refine ⟨r, next, rfl, es, hes, fun e he q hq => ?_⟩
    exact (hall e he).symm.trans hq
  · obtain ⟨es, hes, hall⟩ := advance_answering m₂ now (next x)
    rw [hadv] at hes
    refine ⟨r, next, rfl, es ++ (Deed.request r x).event?.toList, ?_, fun e he q hq => ?_⟩
    · rw [hes, respond_trace hr, List.append_assoc]
    · rcases List.mem_append.mp he with he | he
      · cases hall e he q hq
      · obtain ⟨y, hy⟩ := Deed.request_of_event (Option.mem_toList.mp he) hq
        cases hy
        rfl

theorem step_answering (h : m.step? now a = some m') : Answering (m.asked? a) m m' := by
  have hquiet (hw : m'.world = m.world) : Answering (m.asked? a) m m' :=
    ⟨[], by rw [hw]; rfl, by simp⟩
  cases a with
  | call op =>
    obtain rfl := call_cases h
    exact advance_answering m now _
  | start lane =>
    obtain ⟨j, -, rfl⟩ := start_cases h
    exact advance_answering m now (m.opening lane j)
  | resume t c =>
    cases t with
    | job lane =>
      obtain ⟨p, m₁, progress, hp, hr, rfl⟩ := resume_cases h
      obtain ⟨r, next, rfl, hanswering⟩ := resume_answering hr
      have hasked : m.asked? (.resume (.job lane) c) = some r := by simp only [asked?, hp]
      rw [hasked]
      exact hanswering
    | client i =>
      obtain ⟨p, m₁, progress, hp, hr, rfl⟩ := resume_client_cases h
      obtain ⟨r, next, rfl, hanswering⟩ := resume_answering hr
      have hasked : m.asked? (.resume (.client i) c) = some r := by simp only [asked?, hp]
      rw [hasked]
      exact hanswering
  | drop i =>
    obtain rfl := drop_cases h
    exact hquiet rfl
  | callbackEnds pass capability result =>
    obtain ⟨p, -, rfl⟩ := callbackEnds_cases h
    exact hquiet rfl
  | activation t =>
    obtain ⟨s, -, rfl⟩ := activation_cases h
    exact hquiet rfl
  | restart =>
    obtain rfl := restart_cases h
    exact hquiet rfl

theorem asked_of_answered {p : Program α} {x : r.Answer}
    (h : .request r x ∈ m.answered now c p) : ∃ next, p = .wait r next := by
  cases p with
  | done r => simp [answered] at h
  | act a next => simp [answered] at h
  | wait q next =>
    simp only [answered] at h
    rcases hr : m.respond c q with ⟨m₂, _ | _ | y⟩
    · simp [hr] at h
    · simp [hr] at h
    · rw [hr] at h
      rcases List.mem_cons.mp h with h | h
      · cases h
        exact ⟨next, rfl⟩
      · cases deeds_acts _ _ _ _ h

theorem asked_of_log {x : r.Answer} (h : .request r x ∈ m.log now a) : m.asked? a = some r := by
  obtain ⟨t, c, -, rfl, -⟩ := log_respond h
  cases t with
  | job lane =>
    simp only [log] at h
    split at h
    · rename_i p hp
      obtain ⟨next, rfl⟩ := asked_of_answered h
      simp only [asked?, hp]
    · cases h
  | client i =>
    simp only [log] at h
    split at h
    · rename_i p hp
      obtain ⟨next, rfl⟩ := asked_of_answered h
      simp only [asked?, hp]
    · cases h

theorem asked_cases (h : m.asked? a = some r) :
    (∃ lane next, a.lane? = some lane ∧
      (m.engine.queue lane).running = some (.wait r next)) ∨
      a.lane? = none ∧ ∃ next, .running (.wait r next) ∈ m.engine.clients := by
  cases a with
  | resume t c =>
    cases t with
    | job lane =>
      simp only [asked?] at h
      split at h
      · rename_i q next hrun
        obtain rfl := Option.some.inj h
        exact .inl ⟨lane, next, rfl, hrun⟩
      · cases h
    | client i =>
      simp only [asked?] at h
      split at h
      · rename_i q next hrun
        obtain rfl := Option.some.inj h
        exact .inr ⟨rfl, next, List.mem_of_getElem? hrun⟩
      · cases h
  | _ => cases h

theorem asked_by {lane : Lane} (hm : m.Follows .usual) (h : m.asked? a = some r)
    (hl : ∀ other : Lane, other ≠ lane → ¬ other.footprint.requests r)
    (hc : ¬ (Footprint.caller fun _ => True).requests r) :
    a.lane? = some lane ∧ ∃ next, (m.engine.queue lane).running = some (.wait r next) := by
  rcases asked_cases h with ⟨other, next, ha, hrun⟩ | ⟨-, next, hmem⟩
  · have hr : other.footprint.requests r := (hm.job other _ hrun).1
    obtain rfl : other = lane := Classical.byContradiction fun hne => hl other hne hr
    exact ⟨ha, next, hrun⟩
  · exact absurd (hm.client _ hmem).1 hc

end Machine

end DeviceLock
