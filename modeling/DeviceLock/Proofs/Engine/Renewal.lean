import DeviceLock.Proofs.Engine.Service
import DeviceLock.Proofs.Engine.Solitude

namespace DeviceLock

open Program

namespace Machine

variable {n : Nat} {b m m₁ m' : Machine} {now : Timestamp} {a : Action} {l : List Deed}

/-- Of the passes from this one on, no callback has failed, and whatever runs joins only these. -/
structure AppliedSince (n : Nat) (m : Machine) : Prop where
  le : n ≤ m.engine.passes.length
  passes : ∀ i p, n ≤ i → m.engine.passes[i]? = some p →
    ∀ e ∈ p.ends, e = none ∨ e = some (.returned true)
  job : ∀ lane p, (m.engine.queue lane).running = some p → p.Grounded (n ≤ ·)
  client : ∀ p, .running p ∈ m.engine.clients → p.Grounded (n ≤ ·)

theorem Quiescent.appliedSince (h : m.Quiescent) : m.AppliedSince m.engine.passes.length where
  le := Nat.le_refl _
  passes := fun i p hi hp => absurd (List.getElem?_eq_some_iff.mp hp).1 (Nat.not_lt.mpr hi)
  job := fun lane p hp => by cases (h.idle lane).symm.trans hp
  client := fun p hp => absurd hp (h.clients p)

theorem opening_grounded {known : Nat → Prop} (m : Machine) (lane : Lane) (w : lane.Work) :
    (m.opening lane w).Grounded known := by
  cases lane with
  | policy => exact PolicyJob.program_grounded _ _ w
  | requests =>
    exact (opening_within m .requests w).grounded (fun _ => id) fun _ _ => trivial
  | finalization =>
    exact (opening_within m .finalization w).grounded (fun _ => id) fun _ _ => trivial

theorem Does.appends {d : Deed} (h : m.Does d m') :
    ∃ ps, m'.engine.passes = m.engine.passes ++ ps ∧ (∀ p ∈ ps, ∀ e ∈ p.ends, e = none) ∧
      ∀ k, d.issued? = some k → m.engine.passes.length ≤ k := by
  cases h with
  | act now a =>
    cases a with
    | submit j => cases j <;> exact ⟨[], by simp [perform, Engine.submit], by simp,
        by simp [Deed.issued?]⟩
    | issue p d s => exact ⟨[_], rfl, by simp, by simp [Deed.issued?, perform]⟩
    | _ => exact ⟨[], by simp [perform, record], by simp, by simp [Deed.issued?]⟩
  | request h =>
    obtain ⟨k, hk⟩ := respond_engine h
    exact ⟨[], by rw [hk]; simp, by simp, by simp [Deed.issued?]⟩

theorem Plays.appends (h : m.Plays l m') :
    ∃ ps, m'.engine.passes = m.engine.passes ++ ps ∧ (∀ p ∈ ps, ∀ e ∈ p.ends, e = none) ∧
      ∀ d ∈ l, ∀ k, d.issued? = some k → m.engine.passes.length ≤ k := by
  induction h with
  | nil => exact ⟨[], by simp, by simp, by simp⟩
  | cons hd _ ih =>
    obtain ⟨ps, hps, hnone, hissued⟩ := hd.appends
    obtain ⟨qs, hqs, hnone', hissued'⟩ := ih
    refine ⟨ps ++ qs, by rw [hqs, hps, List.append_assoc], ?_, List.forall_mem_cons.mpr
      ⟨hissued, fun d hd k hk => ?_⟩⟩
    · exact List.forall_mem_append.mpr ⟨hnone, hnone'⟩
    · have hle := hissued' d hd k hk
      rw [hps, List.length_append] at hle
      exact Nat.le_of_add_right_le hle

theorem AppliedSince.passes_step (hm : m.AppliedSince n) (hs : m.step? now a = some m')
    (ha : a.Willing) :
    (n ≤ m'.engine.passes.length ∧ ∀ i p, n ≤ i → m'.engine.passes[i]? = some p →
      ∀ e ∈ p.ends, e = none ∨ e = some (.returned true)) ∧
        ∀ d ∈ m.log now a, ∀ k, d.issued? = some k → n ≤ k := by
  have hr : a ≠ .restart := by
    rintro rfl
    exact ha
  cases step_cases hs hr with
  | plays hplays hn =>
    obtain ⟨ps, hps, hnone, hissued⟩ := hplays.appends
    refine ⟨⟨?_, fun i p hi hp => ?_⟩, fun d hd k hk => hm.le.trans (hissued d hd k hk)⟩
    · rw [hn.passes, hps, List.length_append]
      exact Nat.le_add_right_of_le hm.le
    · rw [hn.passes, hps] at hp
      rcases Nat.lt_or_ge i m.engine.passes.length with hlt | hge
      · rw [List.getElem?_append_left hlt] at hp
        exact hm.passes i p hi hp
      · rw [List.getElem?_append_right hge] at hp
        exact fun e he => .inl (hnone p (List.mem_of_getElem? hp) e he)
  | panics _ _ hl _ he hn =>
    rw [hl, hn.passes, he]
    exact ⟨⟨hm.le, hm.passes⟩, by simp⟩
  | @callbackEnds pass capability result p hact hp he =>
    subst hact he
    obtain rfl : result = .returned true := ha
    refine ⟨⟨by simpa using hm.le, fun i q hi hq => ?_⟩, by simp [log]⟩
    by_cases hpi : pass = i
    · subst hpi
      rw [List.getElem?_set_self (List.getElem?_eq_some_iff.mp hp).1] at hq
      obtain rfl := Option.some.inj hq
      intro e he
      exact (List.mem_or_eq_of_mem_set he).elim (hm.passes pass p hi hp e) .inr
    · rw [List.getElem?_set_ne hpi] at hq
      exact hm.passes i q hi hq
  | activation hact _ he =>
    subst hact he
    exact ⟨⟨hm.le, hm.passes⟩, by simp [log]⟩

theorem AppliedSince.step (hm : m.AppliedSince n) (hs : m.step? now a = some m')
    (ha : a.Willing) : m'.AppliedSince n := by
  have hr : a ≠ .restart := by
    rintro rfl
    exact ha
  obtain ⟨⟨hle, hpasses⟩, hissued⟩ := hm.passes_step hs ha
  have hwalk {α : Type} {q p : Program α} (hw : Walk q (m.log now a) p)
      (hq : q.Grounded (n ≤ ·)) : p.Grounded (n ≤ ·) :=
    (hw.grounded hq).mono fun k hk => by
      rcases hk with ⟨d, hd, hk⟩ | hk
      · exact hissued d hd k hk
      · exact hk
  refine ⟨hle, hpasses, fun lane p hp => ?_, fun p hp => ?_⟩
  · rcases running_of_step hs hr hp with hp | ⟨-, -, q, hw, hq | ⟨w, rfl⟩⟩
    · exact hm.job lane p hp
    · exact hwalk hw (hm.job lane q hq)
    · exact hwalk hw (opening_grounded m lane w)
  · rcases client_of_step hs hr hp with hp | ⟨-, -, q, hw, hq | ⟨op, rfl⟩⟩
    · exact hm.client p hp
    · exact hwalk hw (hm.client q hq)
    · exact hwalk hw ((Operation.program_within (J := fun _ => True) _ op
        fun _ _ => trivial).grounded (fun _ => id) fun _ _ => trivial)

theorem AppliedSince.grounded {τ : Task} {p : Program τ.Result} (hm : m.AppliedSince n)
    (hp : m.rest? τ = some p) : p.Grounded (n ≤ ·) := by
  cases τ with
  | job lane => exact hm.job lane p hp
  | client i =>
    simp only [rest?] at hp
    split at hp
    · rename_i q hi
      obtain rfl := Option.some.inj hp
      exact hm.client _ (List.mem_of_getElem? hi)
    · cases hp

theorem AppliedSince.served (hm : m.AppliedSince n) (hs : m.step? now a = some m')
    (ha : a.Willing) : ∀ d ∈ m.log now a, d.Served := by
  intro d hd
  cases d with
  | act b x => trivial
  | request r x =>
    obtain ⟨τ, c, m₁, rfl, hx⟩ := log_respond hd
    have hc : c.Willing := ha
    by_cases hr : ∃ k, r = .join k
    · obtain ⟨k, rfl⟩ := hr
      obtain ⟨q, next, y, m₂, hp, -, hlog, -⟩ := resume_goes hs hc.calm
      rw [hlog] at hd
      obtain rfl : q = .join k := by
        rcases List.mem_cons.mp hd with hd | hd
        · cases hd
          rfl
        · cases deeds_acts _ _ _ _ hd
      have hk : n ≤ k := (hm.grounded hp).1 k rfl
      exact join_served (fun p hp => hm.passes k p hk hp) hx
    · exact served_of_granted (respond_granted hc hx) fun k hk => hr ⟨k, hk⟩

theorem Reaches.appliedSince (h : Reaches Action.Willing b m) (hb : b.AppliedSince n) :
    m.AppliedSince n := by
  induction h with
  | refl => exact hb
  | step _ ha hs ih => exact ih.step hs ha

theorem Performs.served {op : Operation} {x : Except Fault Reply}
    (h : Performs Action.Willing b op x m) (hb : b.Reachable) (hq : b.Quiescent) :
    (∃ l, Ends (op.program b.engine.config) l x ∧ Executes Deed.Served b.bench l m.bench) ∧
      m.Quiescent :=
  h.executes hb hq trivial fun _ _ _ _ hr ha hs => (hr.appliedSince hq.appliedSince).served hs ha

end Machine

end DeviceLock
