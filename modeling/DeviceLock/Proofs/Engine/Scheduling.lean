import DeviceLock.Proofs.Activation.Attempts
import DeviceLock.Proofs.Engine.Span
import DeviceLock.Proofs.Program.Presentation

namespace DeviceLock

inductive Deed.Orders : Deed → Scheduler Nat → Scheduler Nat → Prop
  | schedule {s : Scheduler Nat} {mode : LockMode} (now : Timestamp) (fresh id : Nat) :
      Orders (.act (.schedule mode) id) s (s.schedule now fresh mode).1
  | cancel {s : Scheduler Nat} (now : Timestamp) : Orders (.act .cancel ()) s (s.cancel now)
  | act {s : Scheduler Nat} {a : Act} (x : a.Answer) (ha : ¬ a.Presents) : Orders (.act a x) s s
  | request {s : Scheduler Nat} {r : Request} (x : r.Answer) : Orders (.request r x) s s

theorem Deed.Orders.of_schedule {s s' : Scheduler Nat} {mode : LockMode} {id : Nat}
    (h : (Deed.act (.schedule mode) id).Orders s s') :
    ∃ now fresh, s' = (s.schedule now fresh mode).1 := by
  cases h with
  | schedule now fresh id => exact ⟨now, fresh, rfl⟩
  | act x ha => exact absurd trivial ha

theorem Deed.Orders.of_cancel {s s' : Scheduler Nat} {x : Unit}
    (h : (Deed.act .cancel x).Orders s s') : ∃ now, s' = s.cancel now := by
  cases h with
  | cancel now => exact ⟨now, rfl⟩
  | act x ha => exact absurd trivial ha

theorem Deed.Orders.of_request {s s' : Scheduler Nat} {r : Request} {x : r.Answer}
    (h : (Deed.request r x).Orders s s') : s' = s := by
  cases h with
  | request x => rfl

namespace Scheduler

variable {s s' : Scheduler Nat} {d : Deed} {l : List Deed} {mode : LockMode}

theorem Sound.cancelled (h : s.Sound) (now : Timestamp) : (s.cancel now).Sound :=
  fun w hw _ => h.cancel now w hw

theorem Sound.orders (hs : s.Sound) (h : d.Orders s s') : s'.Sound := by
  cases h with
  | schedule now fresh id => exact Sound.schedule now fresh _
  | cancel now => exact hs.cancelled now
  | act x ha => exact hs
  | request x => exact hs

theorem entries_of_orders (h : d.Orders s s') : s'.entries = s.entries := by
  cases h with
  | schedule now fresh id => exact (schedule_cases s now fresh _).2.1
  | cancel now => exact (cancel_cases s now).2.1
  | act x ha => rfl
  | request x => rfl

def Schedules (mode : LockMode) (l : List Deed) : Prop :=
  ∀ other id, .act (.schedule other) id ∈ l → other = mode ∧ mode.isActive = true

theorem Schedules.tail (h : Schedules mode (d :: l)) : Schedules mode l :=
  fun other id hmem => h other id (List.mem_cons_of_mem d hmem)

theorem onlyEnters_of_orders (h : d.Orders s s') (hs : s.Sound) (hl : Schedules mode (d :: l))
    (hm : s.OnlyEnters mode ∨ ∃ a x, d = .act a x ∧ a.Presents) : s'.OnlyEnters mode := by
  cases h with
  | schedule now fresh id =>
    obtain ⟨rfl, hactive⟩ := hl _ id List.mem_cons_self
    exact onlyEnters_schedule s now fresh hactive
  | cancel now => exact hs.onlyEnters_cancel now mode
  | act x ha =>
    rcases hm with hm | ⟨a, y, he, hp⟩
    · exact hm
    · cases he
      exact absurd hp ha
  | request x =>
    rcases hm with hm | ⟨a, y, he, -⟩
    · exact hm
    · cases he

abbrev Obeys : Scheduler Nat → List Deed → Scheduler Nat → Prop :=
  Course Deed.Orders fun _ _ => False

theorem Obeys.sound (h : s.Obeys l s') (hs : s.Sound) : s'.Sound :=
  Course.keeps h (fun _ _ h => h.elim) (fun _ _ _ _ h hs => hs.orders h) hs

theorem Obeys.entries (h : s.Obeys l s') : s'.entries = s.entries :=
  Course.keeps (I := fun s₁ => s₁.entries = s.entries) h (fun _ _ h => h.elim)
    (fun _ _ _ _ h he => (entries_of_orders h).trans he) rfl

theorem Obeys.onlyEnters (h : s.Obeys l s') (hs : s.Sound) (hl : Schedules mode l)
    (hm : s.OnlyEnters mode ∨ ∃ a x, .act a x ∈ l ∧ a.Presents) : s'.OnlyEnters mode := by
  induction h with
  | nil =>
    rcases hm with hm | ⟨a, x, hmem, -⟩
    · exact hm
    · cases hmem
  | beside hr => exact hr.elim
  | deed hd _ ih =>
    rcases hm with hm | ⟨a, x, hmem, hp⟩
    · exact ih (hs.orders hd) hl.tail (.inl (onlyEnters_of_orders hd hs hl (.inl hm)))
    rcases List.mem_cons.mp hmem with he | hmem
    · have honly := onlyEnters_of_orders hd hs hl (.inr ⟨a, x, he.symm, hp⟩)
      exact ih (hs.orders hd) hl.tail (.inl honly)
    · exact ih (hs.orders hd) hl.tail (.inr ⟨a, x, hmem, hp⟩)

end Scheduler

namespace Machine

variable {α : Type} {m m' : Machine} {now : Timestamp} {a : Action} {d : Deed} {l : List Deed}
  {mode : LockMode}

theorem Does.scheduler (h : m.Does d m') : d.Orders m.engine.scheduler m'.engine.scheduler := by
  cases h with
  | act now a =>
    cases a with
    | schedule mode => exact .schedule now _ _
    | cancel => exact .cancel now
    | submit j => cases j <;> exact .act _ id
    | _ => exact .act _ id
  | request h =>
    obtain ⟨k, hk⟩ := respond_engine h
    rw [hk]
    exact .request _

theorem Plays.scheduler (h : m.Plays l m') :
    m.engine.scheduler.Obeys l m'.engine.scheduler := by
  induction h with
  | nil => exact .nil _
  | cons hd _ ih => exact .deed hd.scheduler ih

theorem step_scheduler (h : m.step? now a = some m') (hr : a ≠ .restart) :
    (∃ t, a = .activation t ∧ m.engine.scheduler.step? now t = some m'.engine.scheduler) ∨
      m.engine.scheduler.Obeys (m.log now a) m'.engine.scheduler := by
  cases step_cases h hr with
  | plays hplays hn =>
    rw [hn.scheduler]
    exact .inr hplays.scheduler
  | panics _ _ hl _ he hn =>
    rw [hl, hn.scheduler, he]
    exact .inr (.nil _)
  | callbackEnds ha _ he =>
    subst ha he
    exact .inr (.nil _)
  | activation ha hs he =>
    subst ha he
    exact .inl ⟨_, rfl, hs⟩

theorem sound_step (h : m.step? now a = some m') (hs : m.engine.scheduler.Sound) :
    m'.engine.scheduler.Sound := by
  by_cases hr : a = .restart
  · subst hr
    obtain rfl := restart_cases h
    intro w hw
    cases hw
  rcases step_scheduler h hr with ⟨t, -, ht⟩ | hobeys
  · obtain ⟨w, w', hstep⟩ := Scheduler.step_cases ht
    exact (hstep.sound hs).2
  · exact hobeys.sound hs

theorem Reachable.sound (h : m.Reachable) : m.engine.scheduler.Sound := by
  obtain ⟨d, m₀, hf, hm⟩ := h
  induction hm with
  | refl =>
    intro w hw
    rw [hf.engine.1] at hw
    cases hw
  | step _ _ hs ih => exact sound_step hs ih

theorem only_enters_step (h : m.step? now a = some m') (hr : a ≠ .restart)
    (hl : ∀ other id, .act (.schedule other) id ∉ m.log now a)
    (hs : m.engine.scheduler.Sound) (hm : m.engine.scheduler.OnlyEnters mode) :
    m'.engine.scheduler.OnlyEnters mode ∧
      (m'.engine.scheduler.entries = m.engine.scheduler.entries ∨
        m'.engine.scheduler.entries = mode :: m.engine.scheduler.entries ∧
          mode.isActive = true) := by
  rcases step_scheduler h hr with ⟨t, -, ht⟩ | hobeys
  · exact hm.step ht
  · refine ⟨hobeys.onlyEnters hs (fun o i ho => absurd ho (hl o i)) (.inl hm), .inl ?_⟩
    exact hobeys.entries

end Machine

end DeviceLock
