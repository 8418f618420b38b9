import DeviceLock.Proofs.Engine.Ownership

namespace DeviceLock

def Action.lane? : Action → Option Lane
  | start lane | resume (.job lane) _ => some lane
  | call _ | drop _ | resume (.client _) _ | callbackEnds _ _ _ | activation _ | restart => none

theorem Action.eq_of_lane? {a : Action} {lane : Lane} (h : a.lane? = some lane) :
    a = start lane ∨ ∃ c, a = resume (.job lane) c := by
  cases a with
  | start other => exact .inl (congrArg start (Option.some.inj h))
  | resume t c =>
    cases t with
    | job other => exact .inr ⟨c, by rw [Option.some.inj h]⟩
    | client i => cases h
  | _ => cases h

def Action.Under (lane : Lane) (C : Conduct → Prop) (a : Action) : Prop :=
  ∀ c, a = .resume (.job lane) c → C c

theorem Action.under_start {lane : Lane} {C : Conduct → Prop} :
    (start lane).Under lane C := by
  intro c h
  cases h

theorem Action.under_resume {lane : Lane} {C : Conduct → Prop} {c : Conduct} :
    (resume (.job lane) c).Under lane C ↔ C c := by
  constructor
  · exact fun h => h c rfl
  · rintro h _ ⟨⟩
    exact h

namespace Machine

variable {m m₁ m' : Machine} {now : Timestamp} {a : Action} {l : List Deed}

structure Notes (a : Action) (m m' : Machine) : Prop where
  world : m'.world = m.world
  config : m'.engine.config = m.engine.config
  capabilities : m'.engine.capabilities = m.engine.capabilities
  cursor : m'.engine.cursor = m.engine.cursor
  pseudo : m'.engine.pseudo = m.engine.pseudo
  scheduler : m'.engine.scheduler = m.engine.scheduler
  passes : m'.engine.passes = m.engine.passes
  queue : ∀ lane, a.lane? ≠ some lane → m'.engine.queue lane = m.engine.queue lane
  submitted : ∀ lane, (m'.engine.queue lane).submitted = (m.engine.queue lane).submitted

theorem Notes.core (h : Notes a m m') : m'.core = m.core := by
  simp only [Machine.core, h.world, h.cursor, h.pseudo]

theorem notes_settle {lane : Lane} (ha : a.lane? = some lane)
    (progress : Progress (lane.Value × Except Fault Reply)) :
    Notes a m (m.settle lane progress) where
  world := rfl
  config := by simp [settle]
  capabilities := by cases lane <;> rfl
  cursor := by simp [settle]
  pseudo := by simp [settle]
  scheduler := by cases lane <;> rfl
  passes := by simp [settle]
  queue := fun other hne => by
    apply Engine.queue_put_of_ne
    rintro rfl
    exact hne ha
  submitted := fun other => by
    by_cases hne : other = lane
    · subst hne
      simp only [settle, Engine.queue_put, JobQueue.settle_submitted]
    · rw [settle, Engine.queue_put_of_ne _ _ hne]

theorem notes_clients (a : Action) (m : Machine) (clients : List Client) :
    Notes a m { m with engine.clients := clients } where
  world := rfl
  config := rfl
  capabilities := rfl
  cursor := rfl
  pseudo := rfl
  scheduler := rfl
  passes := rfl
  queue := fun lane _ => by cases lane <;> rfl
  submitted := fun lane => by cases lane <;> rfl

inductive Stepped (m : Machine) (now : Timestamp) (a : Action) (m' : Machine) : Prop
  | plays {m₁ : Machine} (h : m.Plays (m.log now a) m₁) (hn : Notes a m₁ m')
  | panics {t : Task} {c : Conduct} {m₁ : Machine} (ha : a = .resume t c) (hp : ¬ c.Calm)
      (hl : m.log now a = []) (hc : m₁.core = m.core) (he : m₁.engine = m.engine)
      (hn : Notes a m₁ m')
  | callbackEnds {pass capability : Nat} {result : CallbackEnd} {p : Pass}
      (ha : a = .callbackEnds pass capability result) (hp : m.engine.passes[pass]? = some p)
      (he : m' = { m with
        engine.passes :=
          m.engine.passes.set pass { p with ends := p.ends.set capability (some result) } })
  | activation {t : TaskStep} {s : Scheduler Nat} (ha : a = .activation t)
      (hs : m.engine.scheduler.step? now t = some s)
      (he : m' = { m with engine.scheduler := s })

theorem step_cases (h : m.step? now a = some m') (hr : a ≠ .restart) : m.Stepped now a m' := by
  cases a with
  | call op =>
    obtain rfl := call_cases h
    exact .plays (advance_after m now _).1 (notes_clients _ _ _)
  | drop i =>
    obtain rfl := drop_cases h
    exact .plays (.nil m) (notes_clients _ _ _)
  | start lane =>
    obtain ⟨j, hj, rfl⟩ := start_cases h
    have hplays := (advance_after m now (m.opening lane j)).1
    exact .plays (by simpa only [log, hj] using hplays) (notes_settle rfl _)
  | resume t c =>
    have hresumed {α : Type} {p : Program α} {progress : Progress α} {m₁ : Machine}
        (hl : m.log now (.resume t c) = m.answered now c p)
        (hres : m.resume? now c p = some (m₁, progress)) (hn : Notes (.resume t c) m₁ m') :
        m.Stepped now (.resume t c) m' := by
      rcases resume_plays hres with hplays | ⟨hnone, hc, he, hp⟩
      · exact .plays (hl ▸ hplays) hn
      · exact .panics rfl hp (hl.trans hnone) hc he hn
    cases t with
    | job lane =>
      obtain ⟨p, m₁, progress, hp, hres, rfl⟩ := resume_cases h
      exact hresumed (by simp only [log, hp]) hres (notes_settle rfl _)
    | client i =>
      obtain ⟨p, m₁, progress, hp, hres, rfl⟩ := resume_client_cases h
      exact hresumed (by simp only [log, hp]) hres (notes_clients _ _ _)
  | callbackEnds pass capability result =>
    obtain ⟨p, hp, rfl⟩ := callbackEnds_cases h
    exact .callbackEnds rfl hp rfl
  | activation t =>
    obtain ⟨s, hs, he⟩ := activation_cases h
    exact .activation rfl hs he
  | restart => exact absurd rfl hr

structure Frame (m : Machine) (a : Action) (l : List Deed) (m' : Machine) : Prop where
  core : m.core.Tells l m'.core
  queue : ∀ lane, a.lane? ≠ some lane →
    m'.engine.queue lane = (m.engine.queue lane).add (l.flatMap (Deed.submitted lane))
  config : m'.engine.config = m.engine.config
  passes : m.engine.passes.length ≤ m'.engine.passes.length
  issued : ∀ d ∈ l, ∀ n, d.issued? = some n → n < m'.engine.passes.length
  keeps : ∀ j x, .act (.submit j) x ∈ l → m'.engine.Keeps x j

theorem Frame.of_turn (h : m.Turn l m₁) (hn : Notes a m₁ m') : m.Frame a l m' where
  core := hn.core ▸ h.core
  queue := fun lane hl => (hn.queue lane hl).trans (h.queue lane)
  config := hn.config.trans h.config
  passes := hn.passes ▸ h.passes
  issued := hn.passes ▸ h.issued
  keeps := fun j x hmem =>
    (h.keeps j x hmem).grows fun lane => ⟨[], by rw [hn.submitted, List.append_nil]⟩

theorem Frame.of_quiet (hc : m'.core = m.core)
    (hq : ∀ lane, m'.engine.queue lane = m.engine.queue lane)
    (hcfg : m'.engine.config = m.engine.config)
    (hp : m'.engine.passes.length = m.engine.passes.length) : m.Frame a [] m' where
  core := hc ▸ .nil _
  queue := fun lane _ => (hq lane).trans (JobQueue.add_nil _).symm
  config := hcfg
  passes := Nat.le_of_eq hp.symm
  issued := by simp
  keeps := by simp

section

variable {lane : Lane}

theorem Frame.value (h : m.Frame a l m') (ha : a.lane? ≠ some lane) :
    (m'.engine.queue lane).value = (m.engine.queue lane).value := by
  rw [h.queue lane ha, JobQueue.add_value]

theorem Frame.ended (h : m.Frame a l m') (ha : a.lane? ≠ some lane) :
    (m'.engine.queue lane).ended = (m.engine.queue lane).ended := by
  rw [h.queue lane ha, JobQueue.add_ended]

theorem Frame.running (h : m.Frame a l m') (ha : a.lane? ≠ some lane) :
    (m'.engine.queue lane).running = (m.engine.queue lane).running := by
  rw [h.queue lane ha, JobQueue.add_running]

end

theorem step_frame (h : m.step? now a = some m') (ha : a ≠ .restart) :
    m.Frame a (m.log now a) m' := by
  cases step_cases h ha with
  | plays hplays hn => exact .of_turn hplays.turn hn
  | panics _ _ hl hc he hn =>
    rw [hl]
    exact .of_turn (.of_core_engine hc he) hn
  | callbackEnds ha _ he =>
    subst ha he
    exact .of_quiet rfl (fun lane => by cases lane <;> rfl) rfl (by simp)
  | activation ha _ he =>
    subst ha he
    exact .of_quiet rfl (fun lane => by cases lane <;> rfl) rfl rfl

theorem start_queue {lane : Lane} (h : m.step? now (.start lane) = some m') :
    ∃ j progress, (m.engine.queue lane).next? = some j ∧
      progress.After (m.opening lane j) (m.log now (.start lane)) ∧
        m'.engine.queue lane = ((m.engine.queue lane).add
          ((m.log now (.start lane)).flatMap (Deed.submitted lane))).settle progress := by
  obtain ⟨j, hj, rfl⟩ := start_cases h
  obtain ⟨-, hafter⟩ := advance_after m now (m.opening lane j)
  have hturn := advance_turn m now (m.opening lane j)
  refine ⟨j, (m.advance now (m.opening lane j)).2, hj, ?_, ?_⟩
  · simpa only [log, hj] using hafter
  · simp only [log, hj, settle, Engine.queue_put, hturn.queue]

theorem resume_queue {lane : Lane} {c : Conduct}
    (h : m.step? now (.resume (.job lane) c) = some m') :
    ∃ p progress, (m.engine.queue lane).running = some p ∧
      (progress.After p (m.log now (.resume (.job lane) c)) ∨
        progress = .panicked ∧ m.log now (.resume (.job lane) c) = [] ∧
          (∃ r next, p = .wait r next) ∧ ¬ c.Calm) ∧
        m'.engine.queue lane = ((m.engine.queue lane).add
          ((m.log now (.resume (.job lane) c)).flatMap (Deed.submitted lane))).settle
            progress := by
  obtain ⟨p, m₁, progress, hp, hr, rfl⟩ := resume_cases h
  have hturn := resume_turn hr
  refine ⟨p, progress, hp, ?_, ?_⟩
  · simpa only [log, hp] using answered_after hr
  · simp only [log, hp, settle, Engine.queue_put, hturn.queue]

end Machine

end DeviceLock
