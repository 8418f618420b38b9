import DeviceLock.Proofs.Engine.Task
import DeviceLock.Proofs.Program.Expense

namespace DeviceLock

open Program

theorem Lane.program_costs (lane : Lane) (config : EngineConfig) (value : lane.Value)
    (w : lane.Work) : ∃ n, lane.price = n + 1 ∧ (lane.program config value w).Costs n := by
  cases lane with
  | policy => exact ⟨10, rfl, PolicyJob.program_costs config value w⟩
  | requests =>
    exact ⟨33, rfl, costs_bind_pure (carryOut_costs _ w)⟩
  | finalization =>
    exact ⟨4, rfl, costs_bind_pure (finalization_costs _ _ w)⟩

namespace Pending

def Costs : Pending → Nat → Prop
  | callback, _ => True
  | queued lane, n => lane.price ≤ n
  | running _ p, n => p.Costs n
  | client p, n => p.Costs n

def Afford (s : Multiset Pending) (n : Nat) : Prop :=
  ∃ ns : Multiset Nat, Multiset.Rel Costs s ns ∧ ns.sum ≤ n

variable {s t : Multiset Pending} {x : Pending} {n k : Nat}

theorem Afford.mono (h : Afford s n) (hnk : n ≤ k) : Afford s k := by
  obtain ⟨ns, hs, hsum⟩ := h
  exact ⟨ns, hs, Nat.le_trans hsum hnk⟩

theorem afford_zero (n : Nat) : Afford 0 n := ⟨0, .zero, Nat.zero_le n⟩

theorem Afford.add (hs : Afford s n) (ht : Afford t k) : Afford (s + t) (n + k) := by
  obtain ⟨ns, hs, hn⟩ := hs
  obtain ⟨ks, ht, hk⟩ := ht
  refine ⟨ns + ks, hs.add ht, ?_⟩
  rw [Multiset.sum_add]
  exact Nat.add_le_add hn hk

theorem afford_singleton (h : x.Costs n) : Afford {x} n :=
  ⟨{n}, .cons h .zero, by simp⟩

theorem afford_cons : Afford (x ::ₘ s) n ↔ ∃ c k, x.Costs c ∧ Afford s k ∧ c + k ≤ n := by
  constructor
  · rintro ⟨ns, hs, hsum⟩
    obtain ⟨c, ks, hc, hks, rfl⟩ := Multiset.rel_cons_left.mp hs
    rw [Multiset.sum_cons] at hsum
    exact ⟨c, ks.sum, hc, ⟨ks, hks, Nat.le_refl _⟩, hsum⟩
  · rintro ⟨c, k, hc, hs, hn⟩
    exact ((afford_singleton hc).add hs).mono hn

theorem afford_callbacks (n : Nat) : Afford (.replicate n .callback) 0 := by
  induction n with
  | zero => exact afford_zero 0
  | succ n ih =>
    rw [Multiset.replicate_succ]
    exact afford_cons.mpr ⟨0, 0, trivial, ih, Nat.le_refl 0⟩

theorem afford_sum {ss : List (Multiset Pending)} (h : ∀ s ∈ ss, Afford s 0) :
    Afford ss.sum 0 := by
  induction ss with
  | nil => exact afford_zero 0
  | cons s ss ih =>
    obtain ⟨hs, hss⟩ := List.forall_mem_cons.mp h
    exact hs.add (ih hss)

theorem Afford.replace {s' : Multiset Pending} (h : Afford s n) (hx : x ∈ s)
    (hs : s' + {x} = s + t) :
    ∃ c k, x.Costs c ∧ c + k ≤ n ∧ ∀ b, Afford t b → Afford s' (b + k) := by
  obtain ⟨u, rfl⟩ := Multiset.exists_cons_of_mem hx
  obtain ⟨c, k, hc, hu, hn⟩ := afford_cons.mp h
  refine ⟨c, k, hc, hn, fun b ht => ?_⟩
  obtain rfl : s' = t + u := by
    rw [← Multiset.singleton_add, add_assoc, add_comm s', add_comm u] at hs
    exact add_left_cancel hs
  exact ht.add hu

end Pending

def Scheduler.due {ι : Type} (s : Scheduler ι) : Nat :=
  match s.slot with
  | some w => if w.phase = .starting then 1 else 0
  | none => 0

namespace Scheduler

theorem due_le_one {ι : Type} (s : Scheduler ι) : s.due ≤ 1 := by
  unfold due
  split
  · split <;> decide
  · decide

variable {ι : Type} [DecidableEq ι] (s : Scheduler ι) (now : Timestamp)

theorem due_publish (r : ActivationReport ι) : (s.publish r).due = s.due := by
  unfold publish
  split
  · rfl
  · rename_i w hw
    split
    · simp [due, hw]
    · rfl

theorem due_cancel : (s.cancel now).due ≤ s.due := by
  unfold cancel
  split
  · exact Nat.le_refl _
  · split
    · exact Nat.le_refl _
    · rw [due_publish]
      simp [due, setSlot]

omit [DecidableEq ι] in
theorem due_setSlot {w : ActivationWork ι} (h : w.phase ≠ .starting) : (s.setSlot w).due = 0 := by
  simp [due, setSlot, h]

theorem due_attempt (w : ActivationWork ι) (n : Nat) : (s.attempt now w n).due = 0 := by
  have hpublished := ((s.setSlot { w with phase := .entering n }).due_publish
    ⟨w.id, w.mode, .executing, n, w.lastError, now⟩).trans (due_setSlot s (by simp))
  exact hpublished

theorem due_fail (w : ActivationWork ι) (n : Nat) (message : String) :
    (s.fail now w n message).due = 0 := by
  unfold fail
  dsimp only
  split
  · split <;> exact due_setSlot s (by simp)
  · rw [due_publish]
    exact due_setSlot s (by simp)

variable {s now} {s' : Scheduler ι} {t : TaskStep}

theorem due_step (h : s.step? now t = some s') : s'.due = 0 ∧ (t = .start → s.due = 1) := by
  unfold step? at h
  split at h
  · cases h
  · rename_i w hw
    have hdue : w.phase = .starting → s.due = 1 := fun hp => by simp [due, hw, hp]
    split at h
    · rename_i hp
      cases h
      exact ⟨due_attempt s now w 1, fun _ => hdue hp⟩
    · cases h
      exact ⟨due_attempt s now w _, by simp⟩
    · cases h
      exact ⟨due_setSlot s (by simp), by simp⟩
    · cases h
      exact ⟨due_fail s now w _ _, by simp⟩
    · split at h
      · cases h
        exact ⟨(due_publish _ _).trans (due_setSlot s (by simp)), by simp⟩
      · cases h
        exact ⟨due_fail s now w _ _, by simp⟩
    · cases h
      exact ⟨due_setSlot s (by simp), by simp⟩
    · cases h
      exact ⟨due_setSlot s (by simp), by simp⟩
    · cases h

end Scheduler

theorem Progress.After.costs {α : Type} {p : Program α} {l : List Deed} {progress : Progress α}
    {n : Nat} (h : progress.After p l) (hp : p.Costs n) (hl : ∀ d ∈ l, d.Served) :
    (∃ k, n = (l.map Deed.price).sum + k ∧ ∀ q, progress = .running q → q.Costs k) ∧
      ∀ reason x, .request (.call (.terminate reason)) x ∉ l := by
  cases h with
  | running hw =>
    obtain ⟨⟨k, hn, hk⟩, hcalls⟩ := hw.costs hp hl
    refine ⟨⟨k, hn, ?_⟩, hcalls⟩
    rintro _ ⟨⟩
    exact hk
  | ended hw =>
    obtain ⟨⟨k, hn, -⟩, hcalls⟩ := Walk.costs hw hp hl
    exact ⟨⟨k, hn, by simp⟩, hcalls⟩

theorem Progress.afford {lane : Lane} {progress : Progress (lane.Value × Except Fault Reply)}
    {n : Nat} (h : ∀ q, progress = .running q → q.Costs n) :
    Pending.Afford (progress.backlog lane) n := by
  cases progress with
  | running q => exact Pending.afford_singleton (h q rfl)
  | ended r => exact Pending.afford_zero n
  | panicked => exact Pending.afford_zero n

theorem Client.afford {progress : Progress Reply} {n : Nat}
    (h : ∀ q, progress = .running q → q.Costs n) :
    Pending.Afford (Client.ofProgress progress).backlog n := by
  cases progress with
  | running q => exact Pending.afford_singleton (h q rfl)
  | ended r => exact Pending.afford_zero n
  | panicked => exact Pending.afford_zero n

namespace Machine

variable {m m₁ m' : Machine} {now : Timestamp} {a : Action} {d : Deed} {l : List Deed} {n : Nat}

def Affords (m : Machine) (n : Nat) : Prop :=
  ∃ k, Pending.Afford m.backlog k ∧ k + m.engine.scheduler.due ≤ n

theorem Does.expense (h : m.Does d m') :
    ∃ a b, Pending.Afford (d.adds m.engine.capabilities.length) a ∧
      m'.engine.scheduler.due ≤ m.engine.scheduler.due + b ∧
        a + b + (if d.isRequest then 1 else 0) ≤ d.price := by
  cases h with
  | act now a =>
    cases a with
    | submit j =>
      refine ⟨j.price, 0, Pending.afford_singleton ?_, ?_,
        by simp [Deed.price, Act.price, Deed.isRequest]⟩
      · cases j <;> exact Nat.le_refl _
      · cases j <;> exact Nat.le_refl _
    | issue p s t =>
      exact ⟨0, 0, Pending.afford_callbacks _, Nat.le_refl _,
        by simp [Deed.price, Act.price, Deed.isRequest]⟩
    | schedule mode =>
      refine ⟨0, 1, Pending.afford_zero 0, ?_, by simp [Deed.price, Act.price, Deed.isRequest]⟩
      exact Nat.le_trans (Scheduler.due_le_one _) (Nat.le_add_left 1 _)
    | cancel =>
      exact ⟨0, 0, Pending.afford_zero 0, Scheduler.due_cancel _ _,
        by simp [Deed.price, Act.price, Deed.isRequest]⟩
    | _ =>
      exact ⟨0, 0, Pending.afford_zero 0, Nat.le_refl _,
        by simp [Deed.price, Act.price, Deed.isRequest]⟩
  | request h =>
    obtain ⟨k, hk⟩ := respond_engine h
    rw [hk]
    exact ⟨0, 0, Pending.afford_zero 0, Nat.le_refl _, by simp [Deed.price, Deed.isRequest]⟩

theorem Plays.expense (h : m.Plays l m') :
    ∃ a b, Pending.Afford (l.map (Deed.adds m.engine.capabilities.length)).sum a ∧
      m'.engine.scheduler.due ≤ m.engine.scheduler.due + b ∧
        a + b + l.countP Deed.isRequest ≤ (l.map Deed.price).sum := by
  induction h with
  | nil => exact ⟨0, 0, Pending.afford_zero 0, Nat.le_refl _, Nat.le_refl _⟩
  | cons hd _ ih =>
    obtain ⟨a, b, ha, hb, hab⟩ := hd.expense
    obtain ⟨a', b', ha', hb', hab'⟩ := ih
    rw [hd.capabilities] at ha'
    refine ⟨a + a', b + b', ?_, by omega, ?_⟩
    · rw [List.map_cons, List.sum_cons]
      exact ha.add ha'
    · rw [List.map_cons, List.sum_cons, List.countP_cons]
      omega

theorem mem_backlog {x : Pending} (lane : Lane) (h : x ∈ (m.engine.queue lane).backlog lane) :
    x ∈ m.backlog := by
  simp only [Machine.backlog, Multiset.mem_add]
  cases lane with
  | policy => exact .inl (.inl (.inl (.inl h)))
  | requests => exact .inl (.inl (.inl (.inr h)))
  | finalization => exact .inl (.inl (.inr h))

theorem mem_backlog_client {i : Nat} {p : Program Reply}
    (h : m.engine.clients[i]? = some (.running p)) : .client p ∈ m.backlog := by
  obtain ⟨before, after, hsplit⟩ := List.append_of_mem (List.mem_of_getElem? h)
  simp [Machine.backlog, hsplit, Client.backlog]

theorem Plays.affords {x : Pending} {s : Multiset Pending} (h : m.Plays l m₁) (ho : m.Ordered)
    (hm : m.Affords n) (hx : x ∈ m.backlog) (hs : m'.backlog + {x} = m₁.backlog + s)
    (hdue : m'.engine.scheduler = m₁.engine.scheduler)
    (hcost : ∀ c, x.Costs c → ∃ t, Pending.Afford s t ∧
      (l.map Deed.price).sum + t < c + l.countP Deed.isRequest) : ∃ k < n, m'.Affords k := by
  obtain ⟨k, hk, hn⟩ := hm
  obtain ⟨a, b, ha, hb, hab⟩ := h.expense
  rw [h.backlog ho, add_assoc] at hs
  obtain ⟨c, k', hc, hk', hrest⟩ := hk.replace hx hs
  obtain ⟨t, ht, hlt⟩ := hcost c hc
  have hpaid := hrest (a + t) (ha.add ht)
  exact ⟨a + t + k' + m'.engine.scheduler.due, by rw [hdue]; omega, _, hpaid, Nat.le_refl _⟩

theorem Affords.start {lane : Lane} (hm : m.Affords n) (ho : m.Ordered)
    (h : m.step? now (.start lane) = some m') : ∃ k < n, m'.Affords k := by
  obtain ⟨j, hj, rfl⟩ := start_cases h
  obtain ⟨hplays, hafter⟩ := advance_after m now (m.opening lane j)
  have hadd := (advance_turn m now (m.opening lane j)).queue lane
  have hidle : (m.engine.queue lane).running = none := idle_of_next hj
  have hlt := (JobQueue.lt_of_next hj).2
  refine hplays.affords ho hm (mem_backlog (x := .queued lane) lane ?_)
    (backlog_settle (JobQueue.backlog_start ?_ ?_)) ?_ fun c hc => ?_
  · rw [JobQueue.backlog, hidle]
    exact Multiset.mem_replicate.mpr ⟨by omega, rfl⟩
  · rw [hadd]
    exact hidle
  · rw [hadd, JobQueue.add_ended, JobQueue.add, List.length_append]
    exact Nat.lt_add_right _ hlt
  · cases lane <;> rfl
  · obtain ⟨k, hprice, hopening⟩ := lane.program_costs m.engine.config
      (m.engine.queue lane).value j
    have hserved : ∀ d ∈ m.deeds now (m.opening lane j), d.Served := fun d hd => by
      cases d with
      | act a x => trivial
      | request r x => cases deeds_acts _ _ _ _ hd
    obtain ⟨⟨t, ht, hrest⟩, -⟩ := hafter.costs hopening hserved
    have hc : lane.price ≤ c := hc
    exact ⟨t, Progress.afford hrest, by omega⟩

theorem resumed_affords {α : Type} {c : Conduct} {p : Program α} {progress : Progress α}
    {x : Pending} {s : Multiset Pending} (hm : m.Affords n) (ho : m.Ordered)
    (hres : m.resume? now c p = some (m₁, progress)) (hc : c.Calm)
    (hl : ∀ d ∈ m.answered now c p, d.Served) (hx : x ∈ m.backlog)
    (hs : m'.backlog + {x} = m₁.backlog + s)
    (hdue : m'.engine.scheduler = m₁.engine.scheduler) (hp : ∀ k, x.Costs k → p.Costs k)
    (hrest : ∀ t, (∀ q, progress = .running q → q.Costs t) → Pending.Afford s t) :
    (∃ k < n, m'.Affords k) ∧
      ∀ reason y, .request (.call (.terminate reason)) y ∉ m.answered now c p := by
  have hplays : m.Plays (m.answered now c p) m₁ :=
    (resume_plays hres).resolve_right fun h => h.2.2.2 hc
  have hafter : progress.After p (m.answered now c p) :=
    (answered_after hres).resolve_right fun h => h.2.2.2 hc
  have hasked : 1 ≤ (m.answered now c p).countP Deed.isRequest := by
    obtain ⟨r, next, rfl, ⟨-, -, hr⟩ | ⟨y, m₂, -, -, heq⟩⟩ := resume_after hres
    · exact absurd hc (respond_calm hr)
    · simp [heq, Deed.isRequest, List.countP_cons]
  constructor
  · refine hplays.affords ho hm hx hs hdue fun k hk => ?_
    obtain ⟨⟨t, ht, hr⟩, -⟩ := hafter.costs (hp k hk) hl
    exact ⟨t, hrest t hr, by omega⟩
  · obtain ⟨k, hk, -⟩ := hm
    obtain ⟨s, hsplit⟩ := Multiset.exists_cons_of_mem hx
    obtain ⟨k, -, hcosts, -⟩ := Pending.afford_cons.mp (hsplit ▸ hk)
    exact (hafter.costs (hp k hcosts) hl).2

theorem Affords.resume {τ : Task} {c : Conduct} (hm : m.Affords n) (ho : m.Ordered)
    (h : m.step? now (.resume τ c) = some m') (hc : c.Calm)
    (hl : ∀ d ∈ m.log now (.resume τ c), d.Served) :
    (∃ k < n, m'.Affords k) ∧
      ∀ reason x, .request (.call (.terminate reason)) x ∉ m.log now (.resume τ c) := by
  cases τ with
  | job lane =>
    obtain ⟨p, m₁, progress, hp, hres, rfl⟩ := resume_cases h
    have hlog : m.log now (.resume (.job lane) c) = m.answered now c p := by simp only [log, hp]
    have hrun : (m₁.engine.queue lane).running = some p := by
      rw [(resume_turn hres).queue]
      exact hp
    rw [hlog] at hl ⊢
    refine resumed_affords (x := .running lane p) hm ho hres hc hl
      (mem_backlog lane ?_)
      (backlog_settle (JobQueue.backlog_goes_on hrun)) ?_ (fun _ hk => hk)
      fun _ => Progress.afford
    · rw [JobQueue.backlog, hp]
      exact Multiset.mem_add.mpr (.inl (Multiset.mem_singleton_self _))
    · cases lane <;> rfl
  | client i =>
    obtain ⟨p, m₁, progress, hp, hres, rfl⟩ := resume_client_cases h
    have hlog : m.log now (.resume (.client i) c) = m.answered now c p := by simp only [log, hp]
    have hrun : m₁.engine.clients[i]? = some (.running p) := by
      rw [(resume_turn hres).clients]
      exact hp
    rw [hlog] at hl ⊢
    exact resumed_affords (x := .client p) hm ho hres hc hl (mem_backlog_client hp)
      (backlog_client hrun) rfl (fun _ hk => hk) fun _ => Client.afford

theorem Affords.launch {p : Program Reply} {k : Nat} (hm : m.Affords n) (ho : m.Ordered)
    (hp : p.Costs k) : (m.launch now p).Affords (n + k) := by
  obtain ⟨j, hj, hn⟩ := hm
  obtain ⟨hplays, hafter⟩ := advance_after m now p
  obtain ⟨a, b, ha, hb, hab⟩ := hplays.expense
  have hserved : ∀ d ∈ m.deeds now p, d.Served := fun d hd => by
    cases d with
    | act a x => trivial
    | request r x => cases deeds_acts _ _ _ _ hd
  obtain ⟨⟨t, rfl, hrest⟩, -⟩ := hafter.costs hp hserved
  have hqueue (lane : Lane) :
      (m.launch now p).engine.queue lane = (m.advance now p).1.engine.queue lane := by
    cases lane <;> rfl
  have hpasses : (m.launch now p).engine.passes = (m.advance now p).1.engine.passes := rfl
  have hclients : (m.launch now p).engine.clients =
      (m.advance now p).1.engine.clients ++ [.ofProgress (m.advance now p).2] := rfl
  have hbacklog : (m.launch now p).backlog =
      (m.advance now p).1.backlog + (Client.ofProgress (m.advance now p).2).backlog := by
    simp only [Machine.backlog, hqueue, hpasses, hclients, List.map_append, List.map_cons,
      List.map_nil, List.sum_append, List.sum_cons, List.sum_nil, add_zero, add_assoc]
  refine ⟨j + a + t, ?_, ?_⟩
  · rw [hbacklog, hplays.backlog ho]
    exact (hj.add ha).add (Client.afford hrest)
  · have hsame : (m.launch now p).engine.scheduler = (m.advance now p).1.engine.scheduler := rfl
    rw [hsame]
    omega

theorem Affords.callbackEnds {pass capability : Nat} {result : CallbackEnd} (hm : m.Affords n)
    (h : m.step? now (.callbackEnds pass capability result) = some m') : m'.Affords n := by
  obtain ⟨j, hj, hn⟩ := hm
  obtain ⟨p, hp, hends⟩ := callbackEnds_cases h
  obtain ⟨q, hq, hk⟩ := open_of_callbackEnds h
  obtain rfl := Option.some.inj (hp.symm.trans hq)
  have hbacklog : m'.backlog + {.callback} = m.backlog := hends ▸ backlog_callback hp hk
  have hdue : m'.engine.scheduler = m.engine.scheduler := by rw [hends]
  rw [← hbacklog, add_comm, Multiset.singleton_add] at hj
  obtain ⟨c, k, -, hk, hck⟩ := Pending.afford_cons.mp hj
  exact ⟨k, hk, by rw [hdue]; omega⟩

theorem Affords.activation {t : TaskStep} (hm : m.Affords n)
    (h : m.step? now (.activation t) = some m') :
    ∃ k ≤ n, m'.Affords k ∧ (t = .start → k < n) := by
  obtain ⟨j, hj, hn⟩ := hm
  obtain ⟨s, hs, rfl⟩ := activation_cases h
  obtain ⟨hdue, hstart⟩ := Scheduler.due_step hs
  have hsame : backlog { m with engine.scheduler := s } = m.backlog := rfl
  have hnow : ({ m with engine.scheduler := s } : Machine).engine.scheduler.due = 0 := hdue
  refine ⟨j, by omega, ⟨j, hsame ▸ hj, by omega⟩, fun ht => ?_⟩
  have := hstart ht
  omega

theorem Quiescent.affords (h : m.Quiescent) (ho : m.Ordered) : m.Affords 1 := by
  have hqueue (lane : Lane) : (m.engine.queue lane).backlog lane = 0 := by
    rw [JobQueue.backlog, h.idle lane, h.all_ended ho lane]
    simp
  have hpasses : Pending.Afford (m.engine.passes.map Pass.backlog).sum 0 := by
    refine Pending.afford_sum (List.forall_mem_map.mpr fun p _ => ?_)
    refine Pending.afford_sum (List.forall_mem_map.mpr fun e _ => ?_)
    cases e with
    | none => exact Pending.afford_singleton trivial
    | some e => exact Pending.afford_zero 0
  have hclients : Pending.Afford (m.engine.clients.map Client.backlog).sum 0 := by
    refine Pending.afford_sum (List.forall_mem_map.mpr fun k hk => ?_)
    cases k with
    | running p => exact absurd hk (h.clients p)
    | _ => exact Pending.afford_zero 0
  refine ⟨0, ?_, ?_⟩
  · simp only [Machine.backlog, hqueue, zero_add]
    exact hpasses.add hclients
  · exact (Nat.zero_add _).symm ▸ m.engine.scheduler.due_le_one

end Machine

end DeviceLock
