import DeviceLock.Proofs.Engine.Attendance
import DeviceLock.Proofs.Engine.Backlog
import DeviceLock.Proofs.Engine.Resumption

namespace DeviceLock

open Program

namespace Program

variable {α : Type}

structure Informed (F : Footprint) (e : Engine) (p : Program α) : Prop where
  awaits : p.Ticketed fun t => ∃ j, F.acts (.submit j) ∧ e.Keeps t j
  joins : p.Grounded fun n => n < e.passes.length

variable {F : Footprint} {e e' : Engine} {p q : Program α} {l : List Deed}

theorem Informed.grows (h : p.Informed F e)
    (hs : ∀ lane, (e.queue lane).submitted <+: (e'.queue lane).submitted)
    (hp : e.passes.length ≤ e'.passes.length) : p.Informed F e' where
  awaits := h.awaits.mono fun _ ⟨j, hj, hk⟩ => ⟨j, hj, hk.grows hs⟩
  joins := h.joins.mono fun _ hn => Nat.lt_of_lt_of_le hn hp

theorem Informed.walk (h : p.Informed F e) (hw : Walk p l q) (hl : ∀ d ∈ l, d.Within F)
    (hk : ∀ j t, .act (.submit j) t ∈ l → e.Keeps t j)
    (hi : ∀ d ∈ l, ∀ n, d.issued? = some n → n < e.passes.length) : q.Informed F e where
  awaits := (hw.founded h.awaits).mono fun t ht => by
    rcases ht with ⟨_, hd, j, rfl⟩ | ht
    · exact ⟨j, hl _ hd, hk j t hd⟩
    · exact ht
  joins := (hw.grounded h.joins).mono fun n hn => by
    rcases hn with ⟨d, hd, hn⟩ | hn
    · exact hi d hd n hn
    · exact hn

theorem informed_of_within {G : Footprint} (h : p.Within G) (hx : ∀ r x, G.answers r x)
    (hj : ∀ n, ¬ G.requests (.join n)) (ht : p.Ticketed fun _ => False) : p.Informed F e where
  awaits := ht.mono fun _ => False.elim
  joins := h.grounded hj hx

end Program

theorem Engine.Keeps.lane {e : Engine} {t : Ticket} {j : Job} (h : e.Keeps t j) :
    t.lane = j.lane := by
  obtain ⟨lane, i⟩ := t
  obtain ⟨w, rfl, -⟩ := h
  cases lane <;> rfl

def Action.Serves : Action → Prop
  | start _ => True
  | resume _ c => c.Willing
  | callbackEnds _ _ result => result = .returned true
  | call _ | drop _ | activation _ | restart => False

theorem Action.Serves.proceeds {a : Action} (h : a.Serves) : a.Proceeds := by
  cases a <;> trivial

namespace Machine

variable {P Q : Action → Prop} {lane : Lane} {b m m' : Machine} {now : Timestamp} {a : Action}
  {c : Conduct} {op : Operation} {l : List Deed} {t : Ticket}

theorem running_of_step {p : Program (lane.Value × Except Fault Reply)}
    (h : m.step? now a = some m') (hr : a ≠ .restart)
    (hp : (m'.engine.queue lane).running = some p) :
    (m.engine.queue lane).running = some p ∨ (∃ r next, p = .wait r next) ∧
      a.lane? = some lane ∧ ∃ q, Walk q (m.log now a) p ∧
        ((m.engine.queue lane).running = some q ∨ ∃ j, q = m.opening lane j) := by
  have hafter {q : Program (lane.Value × Except Fault Reply)}
      {progress : Progress (lane.Value × Except Fault Reply)}
      (hq : progress.After q (m.log now a)) (he : progress = .running p) :
      (∃ r next, p = .wait r next) ∧ Walk q (m.log now a) p := by
    subst he
    cases hq with
    | running hw => exact ⟨⟨_, _, rfl⟩, hw⟩
  by_cases hl : a.lane? = some lane
  · rcases Action.eq_of_lane? hl with rfl | ⟨c, rfl⟩
    · obtain ⟨j, progress, -, hq, hqueue⟩ := start_queue h
      rw [hqueue] at hp
      obtain ⟨hwait, hw⟩ := hafter hq (JobQueue.settle_running hp)
      exact .inr ⟨hwait, hl, _, hw, .inr ⟨j, rfl⟩⟩
    · obtain ⟨q, progress, hrun, hq, hqueue⟩ := resume_queue h
      rw [hqueue] at hp
      have he := JobQueue.settle_running hp
      rcases hq with hq | ⟨rfl, -⟩
      · obtain ⟨hwait, hw⟩ := hafter hq he
        exact .inr ⟨hwait, hl, q, hw, .inl hrun⟩
      · cases he
  · rw [(step_frame h hr).running hl] at hp
    exact .inl hp

theorem client_of_step {p : Program Reply} (h : m.step? now a = some m') (hr : a ≠ .restart)
    (hp : .running p ∈ m'.engine.clients) :
    .running p ∈ m.engine.clients ∨ (∃ r next, p = .wait r next) ∧ a.lane? = none ∧
      ∃ q, Walk q (m.log now a) p ∧
        (.running q ∈ m.engine.clients ∨ ∃ op : Operation, q = op.program m.engine.config) := by
  have hafter {q : Program Reply} {progress : Progress Reply}
      (hq : progress.After q (m.log now a)) (he : .running p = Client.ofProgress progress) :
      (∃ r next, p = .wait r next) ∧ Walk q (m.log now a) p := by
    obtain rfl := running_of_progress he
    cases hq with
    | running hw => exact ⟨⟨_, _, rfl⟩, hw⟩
  have hclients := step_clients h hr
  generalize m'.engine.clients = clients at hp hclients
  cases hclients with
  | launched op =>
    rcases List.mem_append.mp hp with hp | hp
    · exact .inl hp
    · obtain ⟨hwait, hw⟩ := hafter (advance_after m now (op.program m.engine.config)).2
        (List.mem_singleton.mp hp)
      exact .inr ⟨hwait, rfl, _, hw, .inr ⟨op, rfl⟩⟩
  | @resumed i c q m₁ progress hrun hres =>
    rcases List.mem_or_eq_of_mem_set hp with hp | hp
    · exact .inl hp
    · rcases answered_after hres with hq | ⟨rfl, -⟩
      · simp only [log, hrun] at hafter ⊢
        obtain ⟨hwait, hw⟩ := hafter hq hp
        exact .inr ⟨hwait, rfl, q, hw, .inl (List.mem_of_getElem? hrun)⟩
      · cases hp
  | dropped i =>
    rcases List.mem_or_eq_of_mem_set hp with hp | hp
    · exact .inl hp
    · cases hp
  | kept => exact .inl hp

theorem opening_informed (m : Machine) (lane : Lane) (j : lane.Work) :
    (m.opening lane j).Informed lane.footprint m.engine := by
  cases lane with
  | policy =>
    exact ⟨(PolicyJob.program_within _ _ j).ticketed (fun _ => id) fun _ _ => trivial,
      PolicyJob.program_grounded _ _ j⟩
  | requests =>
    exact informed_of_within (DeviceRequest.program_within _ j) (fun _ _ => trivial) (fun _ => id)
      (DeviceRequest.program_ticketed _ j)
  | finalization =>
    have hwithin := FinalizationJob.program_within m.engine.config m.engine.finalization.value j
    exact informed_of_within hwithin (fun _ _ => trivial) (fun _ => id)
      (hwithin.ticketed (fun _ => id) fun _ _ => trivial)

structure Informed (m : Machine) : Prop where
  job : ∀ lane p, (m.engine.queue lane).running = some p →
    (∃ r next, p = .wait r next) ∧ p.Informed lane.footprint m.engine
  client : ∀ p, .running p ∈ m.engine.clients →
    (∃ r next, p = .wait r next) ∧ p.Informed (.caller fun _ => True) m.engine

theorem Informed.of_idle (hq : ∀ lane, m.Idle lane) (hc : m.engine.clients = []) : m.Informed where
  job := fun lane p hp => by
    rw [hq lane] at hp
    cases hp
  client := fun p hp => by
    rw [hc] at hp
    cases hp

theorem Informed.step (hm : m.Informed) (husual : m.Follows .usual)
    (h : m.step? now a = some m') : m'.Informed := by
  by_cases hr : a = .restart
  · subst hr
    obtain rfl := restart_cases h
    exact .of_idle (fun lane => by cases lane <;> rfl) rfl
  have hframe := step_frame h hr
  have hwithin := (husual.step h (admits_usual m now a)).1
  have hgrows {α : Type} {F : Footprint} {p : Program α} (hp : p.Informed F m.engine) :
      p.Informed F m'.engine :=
    hp.grows (fun lane => (step_grows h hr lane).1) hframe.passes
  have hwalk {α : Type} {F : Footprint} {p q : Program α} (hp : p.Informed F m.engine)
      (hw : Walk p (m.log now a) q) (hF : Regime.usual.of a = F) : q.Informed F m'.engine :=
    (hgrows hp).walk hw (hF ▸ hwithin) hframe.keeps hframe.issued
  refine ⟨fun lane p hp => ?_, fun p hp => ?_⟩
  · rcases running_of_step h hr hp with hp | ⟨hwait, hl, q, hw, hq⟩
    · exact (hm.job lane p hp).imp_right hgrows
    · have hF : Regime.usual.of a = lane.footprint := by
        rw [Regime.of, hl]
        rfl
      rcases hq with hq | ⟨j, rfl⟩
      · exact ⟨hwait, hwalk (hm.job lane q hq).2 hw hF⟩
      · exact ⟨hwait, hwalk (opening_informed m lane j) hw hF⟩
  · rcases client_of_step h hr hp with hp | ⟨hwait, hl, q, hw, hq⟩
    · exact (hm.client p hp).imp_right hgrows
    · have hF : Regime.usual.of a = .caller fun _ => True := by
        rw [Regime.of, hl]
        rfl
      rcases hq with hq | ⟨op, rfl⟩
      · exact ⟨hwait, hwalk (hm.client q hq).2 hw hF⟩
      · refine ⟨hwait, hwalk (informed_of_within (Operation.program_within (J := fun _ => True) _ op
          fun _ _ => trivial) (fun _ _ => trivial) (fun _ => id) (op.program_ticketed _)) hw hF⟩

theorem Reachable.informed (hm : m.Reachable) : m.Informed := by
  obtain ⟨d, m₀, hf, hr⟩ := hm
  induction hr with
  | refl => exact .of_idle hf.idle (by rw [hf.engine.1])
  | step h _ hs ih => exact ih.step (h.usual (hf.follows _)) hs

inductive Ready (m : Machine) : Prop
  | start {lane : Lane} (h : ∀ now, ∃ m', m.step? now (.start lane) = some m')
  | resume {t : Task} (h : ∀ now c, ∃ m', m.step? now (.resume t c) = some m')
  | callbackEnds {n k : Nat}
      (h : ∀ now result, ∃ m', m.step? now (.callbackEnds n k result) = some m')

theorem resume_of_answerable {α : Type} {r : Request} {next : r.Answer → Program α}
    (h : (m.respond c r).2 ≠ .pending) (now : Timestamp) :
    ∃ m₁ progress, m.resume? now c (.wait r next) = some (m₁, progress) := by
  simp only [resume?]
  rcases hr : m.respond c r with ⟨m₁, _ | _ | x⟩
  · rw [hr] at h
    exact absurd rfl h
  · exact ⟨_, _, rfl⟩
  · exact ⟨_, _, rfl⟩

theorem resume_of_client {i : Nat} {p : Program Reply} {m₁ : Machine} {progress : Progress Reply}
    (hp : m.engine.clients[i]? = some (.running p))
    (h : m.resume? now c p = some (m₁, progress)) :
    m.step? now (.resume (.client i) c) =
      some { m₁ with engine.clients := m₁.engine.clients.set i (.ofProgress progress) } := by
  simp only [step?, resumeTask?, hp, h]
  rfl

theorem answerable_or_ready {α : Type} {F : Footprint} {r : Request} {next : r.Answer → Program α}
    (h : (Program.wait r next).Informed F m.engine)
    (ha : ∀ t, r = .await t → ∃ x, m.engine.answer? t = some x) :
    (∀ now c, ∃ m₁ progress, m.resume? now c (.wait r next) = some (m₁, progress)) ∨ m.Ready := by
  have hanswer (hr : ∀ c, (m.respond c r).2 ≠ .pending) :
      (∀ now c, ∃ m₁ progress, m.resume? now c (.wait r next) = some (m₁, progress)) ∨ m.Ready :=
    .inl fun now c => resume_of_answerable (hr c) now
  by_cases hjoin : ∃ n, r = .join n
  · obtain ⟨n, rfl⟩ := hjoin
    have hn : n < m.engine.passes.length := h.joins.1 n rfl
    rcases respond_join m {} hn with ⟨x, hx⟩ | ⟨k, hk⟩
    · refine hanswer fun c => ?_
      rw [show m.respond c (.join n) = (m, .answer x) from hx]
      simp
    · exact .inr (.callbackEnds hk)
  by_cases hawait : ∃ t, r = .await t
  · obtain ⟨t, rfl⟩ := hawait
    obtain ⟨x, hx⟩ := ha t rfl
    refine hanswer fun c => ?_
    simp [respond, hx]
  · exact hanswer fun c =>
      respond_ne_pending m c (fun n hn => hjoin ⟨n, hn⟩) fun t ht => hawait ⟨t, ht⟩

theorem ready_of_running {p : Program (lane.Value × Except Fault Reply)} (hm : m.Informed)
    (hp : (m.engine.queue lane).running = some p)
    (ha : ∀ t next, p = .wait (.await t) next → ∃ x, m.engine.answer? t = some x) : m.Ready := by
  obtain ⟨⟨r, next, rfl⟩, hinformed⟩ := hm.job lane p hp
  rcases answerable_or_ready hinformed fun t ht => by subst ht; exact ha t next rfl with h | h
  · refine .resume (t := .job lane) fun now c => ?_
    obtain ⟨m₁, progress, hres⟩ := h now c
    exact ⟨_, resume_of_running hp hres⟩
  · exact h

theorem ready_of_client {p : Program Reply} (hm : m.Informed) (hp : .running p ∈ m.engine.clients)
    (ha : ∀ t next, p = .wait (.await t) next → ∃ x, m.engine.answer? t = some x) : m.Ready := by
  obtain ⟨⟨r, next, rfl⟩, hinformed⟩ := hm.client p hp
  obtain ⟨i, hi⟩ := List.getElem?_of_mem hp
  rcases answerable_or_ready hinformed fun t ht => by subst ht; exact ha t next rfl with h | h
  · refine .resume (t := .client i) fun now c => ?_
    obtain ⟨m₁, progress, hres⟩ := h now c
    exact ⟨_, resume_of_client hi hres⟩
  · exact h

def Finished (m : Machine) (lane : Lane) : Prop :=
  m.Idle lane ∧ (m.engine.queue lane).next? = none

theorem Finished.answers {j : Job} (h : m.Finished t.lane) (hm : m.Ordered)
    (hk : m.engine.Keeps t j) : ∃ x, m.engine.answer? t = some x := by
  obtain ⟨w, -, hw⟩ := hk
  have hlt : t.index < (m.engine.queue t.lane).ended.length := by
    have hnext := h.2
    have hidle : (m.engine.queue t.lane).running = none := h.1
    unfold JobQueue.next? at hnext
    rw [if_neg (by simp [(hm t.lane).live, hidle])] at hnext
    exact Nat.lt_of_lt_of_le (List.getElem?_eq_some_iff.mp hw).1
      (List.getElem?_eq_none_iff.mp hnext)
  exact ⟨_, (Engine.answer?_eq_some_iff (hm t.lane).live).mpr
    ⟨_, List.getElem?_eq_getElem hlt, rfl⟩⟩

theorem finished_of_not_ready (hm : m.Informed) (hn : ¬ m.Ready)
    (ha : ∀ t next, (m.engine.queue lane).running = some (.wait (.await t) next) →
      ∃ x, m.engine.answer? t = some x) : m.Finished lane := by
  have hidle : m.Idle lane := by
    cases hp : (m.engine.queue lane).running with
    | none => exact hp
    | some p => exact absurd (ready_of_running hm hp fun t next he => ha t next (he ▸ hp)) hn
  refine ⟨hidle, ?_⟩
  cases hj : (m.engine.queue lane).next? with
  | none => rfl
  | some j => exact absurd (.start fun now => ⟨_, start_of_next hj now⟩) hn

theorem Informed.ready_or_quiescent (hinformed : m.Informed) (husual : m.Follows .usual)
    (hm : m.Ordered) : m.Ready ∨ m.Quiescent := by
  refine Classical.or_iff_not_imp_left.mpr fun hn => ?_
  have hunwaiting {lane : Lane} (hF : ∀ t, ¬ lane.footprint.requests (.await t)) :
      m.Finished lane :=
    finished_of_not_ready hinformed hn fun t next hp =>
      absurd (husual.job lane _ hp).1 (hF t)
  have hpolicy : m.Finished .policy := hunwaiting fun _ => id
  have hfinalization : m.Finished .finalization := hunwaiting fun _ => id
  have hrequests : m.Finished .requests := by
    refine finished_of_not_ready hinformed hn fun t next hp => ?_
    obtain ⟨j, hj, hk⟩ := (hinformed.job _ _ hp).2.awaits.1 t rfl
    have hlane : m.Finished t.lane := by
      rw [hk.lane]
      rcases hj with rfl | rfl | rfl
      · exact hpolicy
      · exact hpolicy
      · exact hfinalization
    exact hlane.answers hm hk
  have hall (lane : Lane) : m.Finished lane := by
    cases lane with
    | policy => exact hpolicy
    | requests => exact hrequests
    | finalization => exact hfinalization
  refine ⟨fun lane => (hall lane).1, fun lane => (hall lane).2, fun p hp => hn ?_⟩
  refine ready_of_client hinformed hp fun t next he => ?_
  subst he
  obtain ⟨j, -, hk⟩ := (hinformed.client _ hp).2.awaits.1 t rfl
  exact (hall t.lane).answers hm hk

theorem Reachable.ready_or_quiescent (hm : m.Reachable) : m.Ready ∨ m.Quiescent :=
  hm.informed.ready_or_quiescent hm.usual hm.ordered

theorem Ready.exists_step (h : m.Ready) :
    ∃ a m', a.Serves ∧ m.step? epoch a = some m' := by
  cases h with
  | start h =>
    obtain ⟨m', hs⟩ := h epoch
    exact ⟨.start _, m', trivial, hs⟩
  | resume h =>
    obtain ⟨m', hs⟩ := h epoch {}
    exact ⟨.resume _ {}, m', Conduct.willing_default, hs⟩
  | callbackEnds h =>
    obtain ⟨m', hs⟩ := h epoch (.returned true)
    exact ⟨.callbackEnds _ _ _, m', rfl, hs⟩

/-- Until such a state is reached, the work under way can go on, and however it does, it leads
there. -/
inductive Inevitable (Q : Machine → Prop) : Machine → Prop
  | now {m : Machine} (h : Q m) : Inevitable Q m
  | later {m : Machine} (hready : m.Ready)
      (h : ∀ now a m', a.Serves → m.step? now a = some m' → Inevitable Q m') : Inevitable Q m

theorem Inevitable.exists_reaches {Q : Machine → Prop} (h : Inevitable Q m) :
    ∃ m', Reaches Action.Serves m m' ∧ Q m' := by
  induction h with
  | now h => exact ⟨_, .refl _, h⟩
  | later hready _ ih =>
    obtain ⟨a, m₁, ha, hs⟩ := hready.exists_step
    obtain ⟨m', hm', hq⟩ := ih epoch a m₁ ha hs
    exact ⟨m', (Reaches.step (.refl _) ha hs).trans hm', hq⟩

theorem Reachable.comes_to_rest {Q : Machine → Prop} (hm : m.Reachable)
    (hQ : ∀ m', Reaches Action.Serves m m' → m'.Quiescent → Q m') : Inevitable Q m := by
  obtain ⟨s, hs⟩ : ∃ s, m.backlog = s := ⟨_, rfl⟩
  induction s using Pending.cut_wf.induction generalizing m with
  | _ s ih =>
    rcases hm.ready_or_quiescent with h | hq
    · refine .later h fun now a m₁ ha hstep => ?_
      have hreaches : Reaches Action.Serves m m₁ := .step (.refl m) ha hstep
      have hcut := cut_of_step hm.usual hm.ordered hstep ha.proceeds
      exact ih _ (hs ▸ hcut) (hm.trans hreaches) (fun m' hr => hQ m' (hreaches.trans hr)) rfl
    · exact .now (hQ m (.refl m) hq)

theorem Attends.goes_on {k : Client} (h : Attends P b op l m) (hk : b.caller m = some k)
    (hd : k ≠ .dropped) (hr : Reaches Q m m')
    (hQ : ∀ a, Q a → P a ∧ a ≠ .restart ∧ ∀ i, a ≠ .drop i) :
    ∃ l' k', Attends P b op (l ++ l') m' ∧ b.caller m' = some k' ∧ k' ≠ .dropped := by
  induction hr with
  | refl => exact ⟨[], k, by rwa [List.append_nil], hk, hd⟩
  | step hr ha hs ih =>
    rename_i m₁ m' now a
    obtain ⟨l', k', hw, hk', hd'⟩ := ih
    obtain ⟨hp, hrestart, hdrop⟩ := hQ a ha
    by_cases hown : ∃ c, a = .resume (.client b.engine.clients.length) c
    · obtain ⟨c, rfl⟩ := hown
      obtain ⟨p, m₂, progress, hrun, hres, rfl⟩ := resume_client_cases hs
      have hlt := (List.getElem?_eq_some_iff.mp hrun).1
      rw [← (resume_turn hres).clients] at hlt
      refine ⟨l' ++ m₁.log now (.resume (.client b.engine.clients.length) c),
        .ofProgress progress, ?_, List.getElem?_set_self hlt, ?_⟩
      · rw [← List.append_assoc]
        exact .own hw hp hs
      · cases progress <;> simp [Client.ofProgress]
    · have hbeside : ∀ c, a ≠ .resume (.client b.engine.clients.length) c :=
        fun c he => hown ⟨c, he⟩
      refine ⟨l', k', .beside hw hp hbeside hrestart hs, ?_, hd'⟩
      exact (clients_of_step hs hrestart hbeside hk').resolve_right fun h => hdrop _ h.1

theorem Attends.reachable (h : Attends P b op l m) (hb : b.Reachable) : m.Reachable :=
  hb.trans h.reaches

theorem Attends.answered_at_rest {k : Client} (h : Attends P b op l m) (hk : b.caller m = some k)
    (hd : k ≠ .dropped) (hq : m.Quiescent)
    (hcalm : ∀ c, P (.resume (.client b.engine.clients.length) c) → c.Calm) :
    ∃ r, b.caller m = some (.answered r) := by
  cases h.stage with
  | running hc => exact absurd (List.mem_of_getElem? hc) (hq.clients _)
  | answered hc => exact ⟨_, hc⟩
  | dropped hc => exact absurd (Option.some.inj (hk.symm.trans hc)) hd
  | panicked _ hpanic =>
    obtain ⟨c, hc, hn⟩ := hpanic
    exact absurd (hcalm c hc) hn

theorem Attends.is_answered {k : Client} (h : Attends P b op l m) (hb : b.Reachable)
    (hk : b.caller m = some k) (hd : k ≠ .dropped) (hP : ∀ a : Action, a.Serves → P a)
    (hcalm : ∀ c, P (.resume (.client b.engine.clients.length) c) → c.Calm) :
    Inevitable (fun m' => ∃ l' r, Attends P b op (l ++ l') m' ∧ b.caller m' = some (.answered r))
      m := by
  refine (h.reachable hb).comes_to_rest fun m' hr hq => ?_
  obtain ⟨l', k', hw, hk', hd'⟩ := h.goes_on hk hd hr fun a ha =>
    ⟨hP a ha, fun he => by subst he; exact ha, fun i he => by subst he; exact ha⟩
  obtain ⟨r, hr⟩ := hw.answered_at_rest hk' hd' hq hcalm
  exact ⟨l', r, hw, hr⟩

end Machine

end DeviceLock
