import DeviceLock.Proofs.Engine.Run
import DeviceLock.Proofs.Program.Discipline

namespace DeviceLock

open Program

variable {σ α : Type} {D : Discipline σ} {Q : σ → Except Fault α → Prop} {s : σ} {l : List Deed}

theorem Discipline.along_answered (h : ∀ d ∈ l, d.isRequest = false) :
    D.Along D.Answered s l := by
  apply along_of_forall
  intro s d hd
  cases d with
  | act a x => trivial
  | request r x => cases h _ hd

theorem Progress.After.obeys {progress : Progress α} {p : Program α} (h : progress.After p l)
    (hp : p.Obeys D Q s) (hl : D.Along D.Answered s l) :
    D.Along D.Admits s l ∧ ∀ q, progress = .running q → q.Obeys D Q (l.foldl D.next s) := by
  cases h with
  | running hw =>
    obtain ⟨hadmits, hq⟩ := hp.walk hw hl
    refine ⟨hadmits, ?_⟩
    rintro _ ⟨⟩
    exact hq
  | ended hw => exact ⟨(hp.walk hw hl).1, by simp⟩

namespace Machine

variable {lane : Lane} {m m' : Machine} {now : Timestamp} {a : Action} {c : Conduct}
  {Q : σ → Except Fault (lane.Value × Except Fault Reply) → Prop}
  {p : Program (lane.Value × Except Fault Reply)}

theorem along_answered (h : ∀ r x, .request r x ∈ m.answered now c p → D.answers s r x) :
    D.Along D.Answered s (m.answered now c p) := by
  cases p with
  | done r => trivial
  | act a next => trivial
  | wait r next =>
    simp only [answered] at h ⊢
    rcases hr : m.respond c r with ⟨m₁, _ | _ | x⟩
    · trivial
    · trivial
    · rw [hr] at h
      exact ⟨h r x List.mem_cons_self, Discipline.along_answered (deeds_acts m₁ now _)⟩

def Abides (m : Machine) (lane : Lane) (D : Discipline σ)
    (Q : σ → Except Fault (lane.Value × Except Fault Reply) → Prop) (s : σ) : Prop :=
  ∀ p, (m.engine.queue lane).running = some p → p.Obeys D Q s

theorem Idle.abides (h : m.Idle lane) : m.Abides lane D Q s := by
  intro p hp
  exact absurd h (not_idle_of_running hp)

theorem Abides.beside (hm : m.Abides lane D Q s) (h : m.step? now a = some m') (hr : a ≠ .restart)
    (ha : a.lane? ≠ some lane) : m'.Abides lane D Q s := by
  intro p hp
  rw [(step_frame h hr).running ha] at hp
  exact hm p hp

theorem Abides.own (hm : m.Abides lane D Q s) (h : m.step? now a = some m')
    (ha : a.lane? = some lane)
    (hstart : ∀ j, (m.engine.queue lane).next? = some j → (m.opening lane j).Obeys D Q s)
    (hx : ∀ r x, .request r x ∈ m.log now a → D.answers s r x) :
    D.Along D.Admits s (m.log now a) ∧
      m'.Abides lane D Q ((m.log now a).foldl D.next s) := by
  have hsettled {p : Program (lane.Value × Except Fault Reply)}
      {progress : Progress (lane.Value × Except Fault Reply)} {work : Queue lane.Value lane.Work}
      (hafter : progress.After p (m.log now a))
      (hp : p.Obeys D Q s) (hl : D.Along D.Answered s (m.log now a))
      (hq : m'.engine.queue lane = work.settle progress) :
      D.Along D.Admits s (m.log now a) ∧
        m'.Abides lane D Q ((m.log now a).foldl D.next s) := by
    obtain ⟨hadmits, hrunning⟩ := hafter.obeys hp hl
    refine ⟨hadmits, fun q hq' => ?_⟩
    rw [hq] at hq'
    exact hrunning q (JobQueue.settle_running hq')
  rcases Action.eq_of_lane? ha with rfl | ⟨c, rfl⟩
  · obtain ⟨j, progress, hj, hafter, hq⟩ := start_queue h
    refine hsettled hafter (hstart j hj) ?_ hq
    simp only [log, hj]
    exact Discipline.along_answered (deeds_acts m now _)
  · obtain ⟨p, progress, hp, hafter | ⟨rfl, hl, -⟩, hq⟩ := resume_queue h
    · refine hsettled hafter (hm p hp) ?_ hq
      simp only [log, hp] at hx ⊢
      exact along_answered hx
    · rw [hl]
      refine ⟨trivial, fun q hq' => ?_⟩
      rw [hq] at hq'
      cases JobQueue.settle_running hq'

end Machine

end DeviceLock
