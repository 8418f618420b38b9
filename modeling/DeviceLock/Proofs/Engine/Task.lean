import DeviceLock.Proofs.Engine.Completion
import DeviceLock.Proofs.Engine.Execution

namespace DeviceLock

open Program

namespace Task

abbrev Result : Task → Type
  | job lane => lane.Value × Except Fault Reply
  | client _ => Reply

def rank : Task → Nat
  | job lane => lane.rank
  | client _ => 5

def Below (τ : Task) (j : Job) : Prop := j.lane.rank < τ.rank

def answer : (τ : Task) → Except Fault τ.Result → Except Fault Reply
  | job _, r => r.bind Prod.snd
  | client _, r => r

end Task

def Bench.close (s : Bench) : (τ : Task) → Except Fault τ.Result → Bench
  | .job lane, r => s.settle lane r
  | .client _, _ => s

def Task.closing (τ : Task) (K : Except Fault Reply → Bench → Prop) (r : Except Fault τ.Result)
    (s : Bench) : Prop :=
  K (τ.answer r) (s.close τ r)

namespace Action

def task? : Action → Option Task
  | start lane => some (.job lane)
  | resume τ _ => some τ
  | call _ | drop _ | callbackEnds _ _ _ | activation _ | restart => none

/-- Nothing is called, given up or restarted, and no collaborator panics. -/
def Undisturbed : Action → Prop
  | resume _ c => c.Calm
  | start _ | callbackEnds _ _ _ | activation _ => True
  | call _ | drop _ | restart => False

instance : DecidablePred Undisturbed
  | resume _ c => inferInstanceAs (Decidable c.Calm)
  | start _ | callbackEnds _ _ _ | activation _ => inferInstanceAs (Decidable True)
  | call _ | drop _ | restart => inferInstanceAs (Decidable False)

theorem Serves.undisturbed {a : Action} (h : a.Serves) : a.Undisturbed := by
  cases a with
  | resume τ c => exact Conduct.Willing.calm h
  | _ => trivial

end Action

namespace Machine

variable {m m₁ m' : Machine} {now : Timestamp} {a : Action} {τ σ : Task}

def bench (m : Machine) : Bench :=
  ⟨m.engine.config, m.core, fun lane => (m.engine.queue lane).value⟩

def rest? (m : Machine) : (τ : Task) → Option (Program τ.Result)
  | .job lane => (m.engine.queue lane).running
  | .client i =>
    match m.engine.clients[i]? with
    | some (.running p) => some p
    | _ => none

def Still (m : Machine) : Task → Prop
  | .job lane => m.Finished lane
  | .client i => m.rest? (.client i) = none

def Same (m m' : Machine) : Task → Prop
  | .job lane => m'.engine.queue lane = m.engine.queue lane
  | .client i => m'.rest? (.client i) = m.rest? (.client i)

def Last (m : Machine) : Task → Prop
  | .job lane =>
    (m.engine.queue lane).submitted.length = (m.engine.queue lane).ended.length + 1
  | .client _ => True

def Rests (m : Machine) (busy : List Task) : Prop := ∀ τ, τ ∉ busy → m.Still τ

def Replies (m m' : Machine) : Task → Except Fault Reply → Prop
  | .job lane, x => ∃ e, (m'.engine.queue lane).ended = (m.engine.queue lane).ended ++ [e] ∧
      e.answer.flatten = x
  | .client i, x => m'.engine.clients[i]? = some (.answered x)

def Unanswered (m m' : Machine) : Task → Prop
  | .job lane => (m'.engine.queue lane).ended = (m.engine.queue lane).ended
  | .client _ => True

theorem Same.rest (h : m.Same m' τ) : m'.rest? τ = m.rest? τ := by
  cases τ with
  | job lane => exact congrArg JobQueue.running h
  | client i => exact h

theorem Same.last (h : m.Same m' τ) : m'.Last τ ↔ m.Last τ := by
  cases τ with
  | job lane =>
    have hq : m'.engine.queue lane = m.engine.queue lane := h
    simp only [Last, hq]
  | client i => exact Iff.rfl

theorem Same.still (h : m.Same m' τ) : m'.Still τ ↔ m.Still τ := by
  cases τ with
  | job lane =>
    have hq : m'.engine.queue lane = m.engine.queue lane := h
    simp only [Still, Finished, Idle, hq]
  | client i =>
    have hc : m'.rest? (.client i) = m.rest? (.client i) := h
    simp only [Still, hc]

theorem Same.unanswered (h : m.Same m' τ) : m.Unanswered m' τ := by
  cases τ with
  | job lane => exact congrArg JobQueue.ended h
  | client i => trivial

theorem Same.trans (h : m.Same m₁ τ) (h' : m₁.Same m' τ) : m.Same m' τ := by
  cases τ with
  | job lane => exact Eq.trans h' h
  | client i => exact Eq.trans h' h

structure Alike (m m' : Machine) : Prop where
  queue : ∀ lane, m'.engine.queue lane = m.engine.queue lane
  clients : m'.engine.clients = m.engine.clients

theorem Alike.same (h : m.Alike m') (τ : Task) : m.Same m' τ := by
  cases τ with
  | job lane => exact h.queue lane
  | client i => simp only [Same, rest?, h.clients]

theorem Same.then_replies {x : Except Fault Reply} (h : m.Same m₁ τ) (hx : m₁.Replies m' τ x) :
    m.Replies m' τ x := by
  cases τ with
  | job lane =>
    have hq : m₁.engine.queue lane = m.engine.queue lane := h
    simpa only [Replies, hq] using hx
  | client i => exact hx

theorem Same.then_unanswered (h : m.Same m₁ τ) (hx : m₁.Unanswered m' τ) :
    m.Unanswered m' τ := by
  cases τ with
  | job lane => exact Eq.trans hx (congrArg JobQueue.ended h)
  | client i => trivial

theorem Does.bench {d : Deed} (h : m.Does d m') : m'.bench = m.bench.after d := by
  simp only [Machine.bench, Bench.after, h.config, h.core.2]
  congr
  funext lane
  rw [h.queue, JobQueue.add_value]

theorem respond_alike {c : Conduct} {r : Request} {x : r.Answer}
    (h : m.respond c r = (m', .answer x)) : m.Alike m' := by
  obtain ⟨k, hk⟩ := respond_engine h
  refine ⟨fun lane => ?_, ?_⟩
  · rw [hk]
    cases lane <;> rfl
  · rw [hk]

def Shows (m m' : Machine) : (τ : Task) → Progress τ.Result → Prop
  | .job lane, progress => m'.engine.queue lane = (m.engine.queue lane).settle progress
  | .client i, progress => m'.engine.clients[i]? = some (.ofProgress progress)

structure Noted (τ : Task) (progress : Progress τ.Result) (m m' : Machine) : Prop where
  core : m'.core = m.core
  config : m'.engine.config = m.engine.config
  queue : ∀ lane, .job lane ≠ τ → m'.engine.queue lane = m.engine.queue lane
  client : ∀ i, .client i ≠ τ → m'.rest? (.client i) = m.rest? (.client i)
  own : m.Shows m' τ progress

theorem noted_job (m : Machine) (lane : Lane)
    (progress : Progress (lane.Value × Except Fault Reply)) :
    Noted (.job lane) progress m (m.settle lane progress) where
  core := by simp [Machine.core, settle]
  config := by simp [settle]
  queue := fun other hne => Engine.queue_put_of_ne _ _ fun he => hne (congrArg _ he)
  client := fun i _ => by simp only [rest?, settle, Engine.put_clients]
  own := by simp [Shows, settle]

theorem noted_client (m : Machine) {i : Nat} (hi : i < m.engine.clients.length)
    (progress : Progress Reply) :
    Noted (.client i) progress m
      { m with engine.clients := m.engine.clients.set i (.ofProgress progress) } where
  core := rfl
  config := rfl
  queue := fun lane _ => by cases lane <;> rfl
  client := fun j hne => by
    have hne : i ≠ j := fun he => hne (congrArg _ he.symm)
    simp only [rest?, List.getElem?_set_ne hne]
  own := List.getElem?_set_self hi

theorem noted_launch (m : Machine) (progress : Progress Reply) :
    Noted (.client m.engine.clients.length) progress m
      { m with engine.clients := m.engine.clients ++ [.ofProgress progress] } where
  core := rfl
  config := rfl
  queue := fun lane _ => by cases lane <;> rfl
  client := fun j hne => by
    have hne : j ≠ m.engine.clients.length := fun he => hne (congrArg _ he)
    simp only [rest?]
    rcases Nat.lt_or_gt_of_ne hne with hlt | hgt
    · rw [List.getElem?_append_left hlt]
    · rw [List.getElem?_eq_none (by simp; omega), List.getElem?_eq_none (by omega)]
  own := List.getElem?_concat_length

theorem Noted.same {progress : Progress τ.Result} (h : Noted τ progress m m') (hσ : σ ≠ τ) :
    m.Same m' σ := by
  cases σ with
  | job lane => exact h.queue lane hσ
  | client i => exact h.client i hσ

theorem Noted.value {progress : Progress τ.Result} (h : Noted τ progress m m') {lane : Lane}
    (hne : .job lane ≠ τ) : m'.bench.value lane = m.bench.value lane :=
  congrArg JobQueue.value (h.queue lane hne)

theorem Noted.of_running {p : Program τ.Result} (h : Noted τ (.running p) m m') :
    m'.bench = m.bench ∧ m'.rest? τ = some p ∧ (m'.Last τ ↔ m.Last τ) ∧ m.Unanswered m' τ := by
  cases τ with
  | job lane =>
    have hq : m'.engine.queue lane = (m.engine.queue lane).run p := h.own
    have hvalue : m'.bench.value = m.bench.value := by
      funext other
      by_cases hne : Task.job other = .job lane
      · cases hne
        exact (congrArg JobQueue.value hq :)
      · exact h.value hne
    refine ⟨Bench.ext h.config h.core hvalue, congrArg JobQueue.running hq, ?_,
      (congrArg JobQueue.ended hq :)⟩
    simp only [Last, hq]
    rfl
  | client i =>
    have hq : m'.engine.clients[i]? = some (.running p) := h.own
    have hvalue : m'.bench.value = m.bench.value := funext fun other => h.value (by simp)
    exact ⟨Bench.ext h.config h.core hvalue, by simp only [rest?, hq], Iff.rfl, trivial⟩

theorem Noted.of_ended {r : Except Fault τ.Result} (h : Noted τ (.ended r) m m') :
    m'.bench = m.bench.close τ r ∧ m.Replies m' τ (τ.answer r) ∧ (m.Last τ → m'.Still τ) := by
  cases τ with
  | job lane =>
    have hq : m'.engine.queue lane = (m.engine.queue lane).settle (.ended r) := h.own
    refine ⟨?_, ?_, fun hlast => ?_⟩
    · have hvalue : m'.bench.value = (m.bench.settle lane r).value := by
        funext other
        by_cases hne : other = lane
        · subst hne
          have hv := congrArg JobQueue.value hq
          rcases r with f | ⟨v, x⟩
          · exact hv
          · rw [Bench.settle_ok]
            exact hv
        · rw [Bench.settle_of_ne _ hne]
          exact h.value fun he => hne (Task.job.inj he)
      have hcore : m'.core = (m.bench.settle lane r).core := by
        rw [Bench.settle_core]
        exact h.core
      have hconfig : m'.engine.config = (m.bench.settle lane r).config := by
        rw [Bench.settle_config]
        exact h.config
      exact Bench.ext hconfig hcore hvalue
    · rcases r with f | ⟨v, x⟩
      · exact ⟨_, congrArg JobQueue.ended hq, rfl⟩
      · exact ⟨_, congrArg JobQueue.ended hq, rfl⟩
    · have hlen : (m.engine.queue lane).submitted.length =
          (m.engine.queue lane).ended.length + 1 := hlast
      have hfinish (e : Ending lane.Value (Except Fault Reply) Fault)
          (hq : m'.engine.queue lane = (m.engine.queue lane).finish e) : m'.Still (.job lane) := by
        simp [Still, Finished, Idle, hq, JobQueue.finish, JobQueue.next?, hlen]
      rcases r with f | ⟨v, x⟩
      · exact hfinish _ hq
      · exact hfinish _ hq
  | client i =>
    have hq : m'.engine.clients[i]? = some (.answered r) := h.own
    have hvalue : m'.bench.value = m.bench.value := funext fun other => h.value (by simp)
    exact ⟨Bench.ext h.config h.core hvalue, hq, fun _ => by simp only [Still, rest?, hq]⟩

theorem Rests.same {busy : List Task} (h : m.Rests busy)
    (hs : ∀ σ, σ ∉ busy → m.Same m' σ) : m'.Rests busy :=
  fun σ hσ => (hs σ hσ).still.mpr (h σ hσ)

theorem start_goes {lane : Lane} (h : m.step? now (.start lane) = some m') :
    ∃ w, (m.engine.queue lane).next? = some w ∧
      m.log now (.start lane) = m.deeds now (m.opening lane w) ∧
      Noted (.job lane) (m.advance now (m.opening lane w)).2
        (m.advance now (m.opening lane w)).1 m' := by
  obtain ⟨w, hw, rfl⟩ := start_cases h
  exact ⟨w, hw, by simp only [log, hw], noted_job _ lane _⟩

theorem resume_goes {c : Conduct} (h : m.step? now (.resume τ c) = some m') (hc : c.Calm) :
    ∃ (r : Request) (next : r.Answer → Program τ.Result) (x : r.Answer) (m₂ : Machine),
      m.rest? τ = some (.wait r next) ∧ m.respond c r = (m₂, .answer x) ∧
        m.log now (.resume τ c) = .request r x :: m₂.deeds now (next x) ∧
          Noted τ (m₂.advance now (next x)).2 (m₂.advance now (next x)).1 m' := by
  have hgoes {p : Program τ.Result} {m₁ : Machine} {progress : Progress τ.Result}
      (hp : m.rest? τ = some p) (hres : m.resume? now c p = some (m₁, progress))
      (hlog : m.log now (.resume τ c) = m.answered now c p) (hn : Noted τ progress m₁ m') :
      ∃ (r : Request) (next : r.Answer → Program τ.Result) (x : r.Answer) (m₂ : Machine),
        m.rest? τ = some (.wait r next) ∧ m.respond c r = (m₂, .answer x) ∧
          m.log now (.resume τ c) = .request r x :: m₂.deeds now (next x) ∧
            Noted τ (m₂.advance now (next x)).2 (m₂.advance now (next x)).1 m' := by
    obtain ⟨r, next, rfl, ⟨-, -, hpanic⟩ | ⟨x, m₂, hr, hadv, hl⟩⟩ := resume_after hres
    · exact absurd hc (respond_calm hpanic)
    · exact ⟨r, next, x, m₂, hp, hr, hlog.trans hl, by rwa [hadv]⟩
  cases τ with
  | job lane =>
    obtain ⟨p, m₁, progress, hp, hres, rfl⟩ := resume_cases h
    exact hgoes hp hres (by simp only [log, hp]) (noted_job m₁ lane progress)
  | client i =>
    obtain ⟨p, m₁, progress, hp, hres, rfl⟩ := resume_client_cases h
    have hi : i < m₁.engine.clients.length := by
      rw [(resume_turn hres).clients]
      exact (List.getElem?_eq_some_iff.mp hp).1
    exact hgoes (by simp only [rest?, hp]) hres (by simp only [log, hp])
      (noted_client m₁ hi progress)

theorem Still.stays (h : m.Still σ) (ha : a.task? = some σ) : m.step? now a ≠ some m' := by
  intro hs
  have hrest {τ : Task} {p : Program τ.Result} (h : m.Still τ) (hp : m.rest? τ = some p) :
      False := by
    cases τ with
    | job lane => cases hp.symm.trans h.1
    | client i => cases hp.symm.trans h
  cases a with
  | start lane =>
    cases ha
    obtain ⟨w, hw, -⟩ := start_goes hs
    cases hw.symm.trans h.2
  | resume τ c =>
    cases ha
    cases σ with
    | job lane =>
      obtain ⟨p, -, -, hp, -⟩ := resume_cases hs
      exact hrest h hp
    | client i =>
      obtain ⟨p, -, -, hp, -⟩ := resume_client_cases hs
      exact hrest (τ := .client i) (p := p) h (by simp only [rest?, hp])
  | _ => cases ha

theorem step_of_no_task (hs : m.step? now a = some m') (ha : a.Undisturbed) (ht : a.task? = none) :
    m.Alike m' ∧ m'.bench = m.bench := by
  have halike {e : Engine} (hq : ∀ lane, e.queue lane = m.engine.queue lane)
      (hc : e.clients = m.engine.clients) (hcfg : e.config = m.engine.config)
      (hcur : e.cursor = m.engine.cursor) (hp : e.pseudo = m.engine.pseudo) :
      m.Alike { m with engine := e } ∧ bench { m with engine := e } = m.bench := by
    refine ⟨⟨hq, hc⟩, Bench.ext hcfg ?_ ?_⟩
    · simp only [bench, core, hcur, hp]
    · funext lane
      exact congrArg JobQueue.value (hq lane)
  cases a with
  | callbackEnds n k result =>
    obtain ⟨p, -, rfl⟩ := callbackEnds_cases hs
    exact halike (fun lane => by cases lane <;> rfl) rfl rfl rfl rfl
  | activation s =>
    obtain ⟨s, -, rfl⟩ := activation_cases hs
    exact halike (fun lane => by cases lane <;> rfl) rfl rfl rfl rfl
  | start lane => cases ht
  | resume τ c => cases ht
  | call op => exact ha.elim
  | drop i => exact ha.elim
  | restart => exact ha.elim

theorem answer?_eq (e : Engine) (t : Ticket) :
    e.answer? t = ((e.queue t.lane).answer? t.index).map JobAnswer.flatten := by
  obtain ⟨lane, i⟩ := t
  cases lane <;> rfl

end Machine

end DeviceLock
