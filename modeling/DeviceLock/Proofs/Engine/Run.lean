import DeviceLock.Proofs.Engine.Regime

namespace DeviceLock

namespace Action

/-- No restart, and no collaborator panics. -/
def Orderly : Action → Prop
  | restart => False
  | resume _ c => c.Calm
  | call _ | drop _ | start _ | callbackEnds _ _ _ | activation _ => True

instance : DecidablePred Orderly
  | restart => inferInstanceAs (Decidable False)
  | resume _ c => inferInstanceAs (Decidable c.Calm)
  | call _ | drop _ | start _ | callbackEnds _ _ _ | activation _ =>
    inferInstanceAs (Decidable True)

def goesOn (lane : Lane) (n : Nat) : List Action := List.replicate n (.resume (.job lane) {})

end Action

namespace Machine

variable {P : Action → Prop} {m₀ m m₁ m' : Machine} {now : Timestamp} {a : Action}

inductive Reaches (P : Action → Prop) : Machine → Machine → Prop
  | refl (m : Machine) : Reaches P m m
  | step {m m₁ m' : Machine} {now : Timestamp} {a : Action} (h : Reaches P m m₁) (ha : P a)
      (hs : m₁.step? now a = some m') : Reaches P m m'

theorem Reaches.trans (h : Reaches P m m₁) (h' : Reaches P m₁ m') : Reaches P m m' := by
  induction h' with
  | refl => exact h
  | step _ ha hs ih => exact ih.step ha hs

theorem Reaches.mono {Q : Action → Prop} (h : Reaches P m m') (hPQ : ∀ a, P a → Q a) :
    Reaches Q m m' := by
  induction h with
  | refl => exact .refl _
  | step _ ha hs ih => exact ih.step (hPQ _ ha) hs

def Fresh (document : Document) (m : Machine) : Prop :=
  ∃ config capabilities e, Engine.ofConfig config capabilities = .ok e ∧
    m = ⟨{ document := document }, e⟩

def Reachable (m : Machine) : Prop := ∃ d m₀, Fresh d m₀ ∧ Reaches (fun _ => True) m₀ m

def Idle (m : Machine) (lane : Lane) : Prop := (m.engine.queue lane).running = none

theorem not_idle_of_running {lane : Lane} {p : Program (lane.Value × Except Fault Reply)}
    (h : (m.engine.queue lane).running = some p) : ¬ m.Idle lane := by
  simp [Idle, h]

structure Quiescent (m : Machine) : Prop where
  idle : ∀ lane, m.Idle lane
  next : ∀ lane, (m.engine.queue lane).next? = none
  clients : ∀ p, .running p ∉ m.engine.clients

def quiet (m : Machine) : Bool :=
  m.engine.policy.running.isNone && m.engine.requests.running.isNone &&
    m.engine.finalization.running.isNone && m.engine.policy.next?.isNone &&
      m.engine.requests.next?.isNone && m.engine.finalization.next?.isNone &&
        m.engine.clients.all fun c => match c with
          | .running _ => false
          | .answered _ | .panicked | .dropped => true

theorem quiescent_of_quiet (h : m.quiet = true) : m.Quiescent := by
  simp only [quiet, Bool.and_eq_true, Option.isNone_iff_eq_none, List.all_eq_true] at h
  obtain ⟨⟨⟨⟨⟨⟨hp, hr⟩, hf⟩, hp'⟩, hr'⟩, hf'⟩, hc⟩ := h
  refine ⟨fun lane => ?_, fun lane => ?_, fun p hmem => ?_⟩
  · cases lane
    · exact hp
    · exact hr
    · exact hf
  · cases lane
    · exact hp'
    · exact hr'
    · exact hf'
  · cases hc _ hmem

theorem Fresh.engine {d : Document} (h : Fresh d m) :
    m.engine = { config := m.engine.config, capabilities := m.engine.capabilities } ∧
      m.world.document = d := by
  obtain ⟨config, capabilities, e, he, rfl⟩ := h
  unfold Engine.ofConfig at he
  cases hv : config.validate with
  | error f =>
    rw [hv] at he
    cases he
  | ok v =>
    rw [hv] at he
    cases he
    exact ⟨rfl, rfl⟩

theorem Fresh.idle {d : Document} (h : Fresh d m) (lane : Lane) : m.Idle lane := by
  rw [Idle, h.engine.1]
  cases lane <;> rfl

theorem Fresh.follows {d : Document} (h : Fresh d m) (G : Regime) : m.Follows G where
  job := fun lane p hp => by
    rw [h.engine.1] at hp
    cases lane <;> cases hp
  client := fun p hp => by
    rw [h.engine.1] at hp
    cases hp

theorem Reaches.usual (h : Reaches P m m') (hm : m.Follows .usual) : m'.Follows .usual := by
  induction h with
  | refl => exact hm
  | step _ _ hs ih => exact (ih.step hs (admits_usual _ _ _)).2

theorem Reachable.usual (h : m.Reachable) : m.Follows .usual := by
  obtain ⟨d, m₀, hf, hr⟩ := h
  exact hr.usual (hf.follows _)

theorem Reachable.trans (h : m.Reachable) (hr : Reaches P m m') : m'.Reachable := by
  obtain ⟨d, m₀, hf, hm⟩ := h
  exact ⟨d, m₀, hf, hm.trans (hr.mono fun _ _ => trivial)⟩

def run? (now : Timestamp) : Machine → List Action → Option Machine
  | m, [] => some m
  | m, a :: l => (m.step? now a).bind (run? now · l)

theorem Reaches.run {l : List Action} (h : Reaches P m₀ m) (hl : ∀ a ∈ l, P a)
    (hr : m.run? now l = some m') : Reaches P m₀ m' := by
  induction l generalizing m with
  | nil =>
    obtain rfl := Option.some.inj hr
    exact h
  | cons a l ih =>
    obtain ⟨m₁, hs, hr⟩ := Option.bind_eq_some_iff.mp hr
    obtain ⟨ha, hl⟩ := List.forall_mem_cons.mp hl
    exact ih (h.step ha hs) hl hr

def epoch : Timestamp := ⟨⟨1970, 1, 1, by decide⟩, ⟨0, 0, by decide, by decide⟩⟩

def plain (capabilities : List String) : Machine := ⟨{}, { config := {}, capabilities }⟩

theorem plain_fresh (capabilities : List String) : Fresh {} (plain capabilities) :=
  ⟨{}, capabilities, _, rfl, rfl⟩

end Machine

end DeviceLock
