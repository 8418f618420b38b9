import DeviceLock.Proofs.Engine.Task

/-!
An operation that has the engine to itself does its deeds in sequence, each job while it is awaited,
whatever the order in which the machine lets its tasks take steps: `Performs.executes`.
-/

namespace DeviceLock

open Program

namespace Engine

theorem added_job (lane : Lane) (w : lane.Work) : added lane (lane.job w) = [w] := by
  cases lane <;> rfl

theorem added_of_ne {lane other : Lane} (w : lane.Work) (h : other ≠ lane) :
    added other (lane.job w) = [] := by
  cases lane <;> cases other <;> first | rfl | exact absurd rfl h

end Engine

namespace Machine

variable {D : Deed → Prop} {m m₁ m₂ m' : Machine} {now : Timestamp} {a : Action} {τ : Task}
  {above : List Task} {K : Except Fault Reply → Bench → Prop}

section Comes

variable {α : Type} {J : Job → Prop} {Q : Except Fault α → Bench → Prop}

/-- What a program has come to by its acts, on the way to what is to hold when it ends. -/
inductive Comes (D : Deed → Prop) (J : Job → Prop) (Q : Except Fault α → Bench → Prop)
    (m m' : Machine) : Progress α → Prop
  | asks {r : Request} {next : r.Answer → Program α} (hr : ∀ t, r ≠ .await t)
      (hs : (wait r next).Serial J none) (hQ : (wait r next).Leads D m'.bench Q)
      (hq : ∀ lane, m'.engine.queue lane = m.engine.queue lane) :
      Comes D J Q m m' (.running (.wait r next))
  | awaits {t : Ticket} {next : Except Fault Reply → Program α} {w : t.lane.Work}
      (hJ : J (t.lane.job w)) (hs : ∀ x, (next x).Serial J none)
      (hq : m'.engine.queue t.lane = (m.engine.queue t.lane).add [w])
      (ho : ∀ lane, lane ≠ t.lane → m'.engine.queue lane = m.engine.queue lane)
      (hi : t.index = (m.engine.queue t.lane).submitted.length)
      (hQ : (m'.opening t.lane w).Leads D m'.bench fun r s =>
        (next (r.bind Prod.snd)).Leads D (s.settle t.lane r) Q) :
      Comes D J Q m m' (.running (.wait (.await t) next))
  | ends {r : Except Fault α} (hQ : Q r m'.bench)
      (hq : ∀ lane, m'.engine.queue lane = m.engine.queue lane) : Comes D J Q m m' (.ended r)

theorem Comes.of_queue {progress : Progress α} (h : Comes D J Q m₁ m' progress)
    (hm : ∀ lane, m₁.engine.queue lane = m.engine.queue lane) : Comes D J Q m m' progress := by
  cases h with
  | asks hr hs hQ hq => exact .asks hr hs hQ fun lane => (hq lane).trans (hm lane)
  | awaits hJ hs hq ho hi hQ =>
    rw [hm] at hq hi
    exact .awaits hJ hs hq (fun lane hne => (ho lane hne).trans (hm lane)) hi hQ
  | ends hQ hq => exact .ends hQ fun lane => (hq lane).trans (hm lane)

theorem submit_cases (m : Machine) (j : Job) :
    ∃ lane w, j = lane.job w ∧
      (m.engine.submit j).2 = ⟨lane, (m.engine.queue lane).submitted.length⟩ := by
  cases j with
  | policy j => exact ⟨.policy, j, rfl, rfl⟩
  | request j => exact ⟨.requests, j, rfl, rfl⟩
  | finalization j => exact ⟨.finalization, j, rfl, rfl⟩

theorem advance_comes {p : Program α} (hs : p.Serial J none) (hl : p.Leads D m.bench Q)
    (hD : ∀ d ∈ m.deeds now p, D d) :
    Comes D J Q m (m.advance now p).1 (m.advance now p).2 := by
  induction p generalizing m with
  | done r => exact .ends hl.result fun _ => rfl
  | wait r next ih =>
    refine .asks (fun t ht => ?_) hs hl fun _ => rfl
    cases (hs.1 t).mp ht
  | act a next ih =>
    obtain ⟨-, hJ, hnext⟩ := hs
    obtain ⟨hdeed, hD⟩ := List.forall_mem_cons.mp hD
    have hdoes := Does.act m now a
    by_cases ha : ∃ j, a = .submit j
    · obtain ⟨j, rfl⟩ := ha
      obtain ⟨lane, w, rfl, ht⟩ := submit_cases m j
      obtain ⟨rest, hrest, hserial⟩ := Serial.awaits (hnext ⟨lane, _⟩)
      have hsame : (m.perform now (.submit (lane.job w))).1.bench = m.bench := hdoes.bench
      have hqueue := hdoes.queue
      simp only [advance]
      rw [show (m.perform now (.submit (lane.job w))).2 = _ from ht, hrest]
      refine .awaits (t := ⟨lane, _⟩) (hJ _ rfl) hserial ?_ (fun other hne => ?_) rfl ?_
      · exact (hqueue lane).trans (congrArg _ (Engine.added_job lane w))
      · exact (hqueue other).trans
          ((congrArg _ (Engine.added_of_ne w hne)).trans (JobQueue.add_nil _))
      · change (lane.program (m.perform now (.submit (lane.job w))).1.bench.config
          ((m.perform now (.submit (lane.job w))).1.bench.value lane) w).Leads D
            (m.perform now (.submit (lane.job w))).1.bench _
        rw [hsame]
        exact hl.job hrest
    · have hdirect : (Deed.act a (m.perform now a).2).Within .direct := by
        cases a <;> first | trivial | exact absurd ⟨_, rfl⟩ ha
      have howed : (Deed.act a (m.perform now a).2).ticket? = none := by
        cases a <;> first | rfl | exact absurd ⟨_, rfl⟩ ha
      have hsubmitted (lane : Lane) : (Deed.act a (m.perform now a).2).submitted lane = [] := by
        cases a <;> first | rfl | exact absurd ⟨_, rfl⟩ ha
      have hfits := (hdoes.core).1
      refine (ih _ (howed ▸ hnext _) ?_ hD).of_queue fun lane => ?_
      · rw [hdoes.bench]
        exact hl.act hdirect hdeed hfits
      · rw [hdoes.queue, hsubmitted, JobQueue.add_nil]

end Comes

/-- The task is on the way to what is to hold when it ends, while those above wait for it in turn
and no other has anything to do. -/
inductive Owed (D : Deed → Prop) (m : Machine) :
    List Task → Task → (Except Fault Reply → Bench → Prop) → Prop
  | queued {above : List Task} {lane : Lane} {K : Except Fault Reply → Bench → Prop}
      {w : lane.Work} (hw : (m.engine.queue lane).next? = some w) (hlast : m.Last (.job lane))
      (hK : (m.opening lane w).Leads D m.bench ((Task.job lane).closing K))
      (hrest : m.Rests (.job lane :: above)) : Owed D m above (.job lane) K
  | active {above : List Task} {τ : Task} {K : Except Fault Reply → Bench → Prop} {r : Request}
      {next : r.Answer → Program τ.Result} (hp : m.rest? τ = some (.wait r next))
      (hlast : m.Last τ) (hr : ∀ t, r ≠ .await t) (hs : (wait r next).Serial τ.Below none)
      (hK : (wait r next).Leads D m.bench (τ.closing K)) (hrest : m.Rests (τ :: above)) :
      Owed D m above τ K
  | ready {above : List Task} {τ : Task} {K : Except Fault Reply → Bench → Prop} {t : Ticket}
      {next : Except Fault Reply → Program τ.Result} {x : Except Fault Reply}
      (hp : m.rest? τ = some (.wait (.await t) next)) (hlast : m.Last τ)
      (hx : m.engine.answer? t = some x) (hs : (next x).Serial τ.Below none)
      (hK : (next x).Leads D m.bench (τ.closing K)) (hrest : m.Rests (τ :: above)) :
      Owed D m above τ K
  | waiting {above : List Task} {τ : Task} {K : Except Fault Reply → Bench → Prop} {t : Ticket}
      {next : Except Fault Reply → Program τ.Result}
      (hp : m.rest? τ = some (.wait (.await t) next)) (hlast : m.Last τ)
      (hs : ∀ x, (next x).Serial τ.Below none) (hrank : t.lane.rank < τ.rank)
      (hplace : (m.engine.queue t.lane).ended.length = t.index)
      (h : Owed D m (τ :: above) (.job t.lane) fun x s => (next x).Leads D s (τ.closing K)) :
      Owed D m above τ K

inductive Fares (D : Deed → Prop) (m m' : Machine) (above : List Task) (τ : Task)
    (K : Except Fault Reply → Bench → Prop) : Prop
  | owed (hs : ∀ σ ∈ above, m.Same m' σ) (h : Owed D m' above τ K) (hu : m.Unanswered m' τ)
  | answered {x : Except Fault Reply} (hs : ∀ σ ∈ above, m.Same m' σ) (hx : m.Replies m' τ x)
      (hK : K x m'.bench) (hrest : m'.Rests above)

theorem lane_job {lane : Lane} (w : lane.Work) : (lane.job w).lane = lane := by
  cases lane <;> rfl

theorem next_of_finished {lane : Lane} {w : lane.Work} (hm : m.Ordered) (h : m.Finished lane)
    (hq : m'.engine.queue lane = (m.engine.queue lane).add [w]) :
    (m'.engine.queue lane).next? = some w ∧ m'.Last (.job lane) ∧
      (m'.engine.queue lane).ended.length = (m.engine.queue lane).submitted.length := by
  obtain ⟨hidle, hnext⟩ := h
  have hidle : (m.engine.queue lane).running = none := hidle
  have hlen : (m.engine.queue lane).ended.length = (m.engine.queue lane).submitted.length := by
    apply Nat.le_antisymm (hm lane).le
    unfold JobQueue.next? at hnext
    rw [if_neg (by simp [(hm lane).live, hidle])] at hnext
    exact List.getElem?_eq_none_iff.mp hnext
  refine ⟨?_, ?_, ?_⟩
  · simp [hq, JobQueue.next?, JobQueue.add, hidle, (hm lane).live, hlen]
  · simp [Last, hq, JobQueue.add, hlen]
  · rw [hq, JobQueue.add_ended, hlen]

theorem Fares.of_comes {progress : Progress τ.Result} (hm : m.Ordered)
    (hc : Comes D τ.Below (τ.closing K) m m₁ progress) (hn : Noted τ progress m₁ m')
    (hclients : m₁.engine.clients = m.engine.clients) (hrest : m.Rests (τ :: above))
    (hlast : m.Last τ) (habove : ∀ σ ∈ above, τ.rank < σ.rank) : Fares D m m' above τ K := by
  have hne {σ : Task} (hσ : σ ∈ above) : σ ≠ τ := by
    rintro rfl
    exact Nat.lt_irrefl _ (habove σ hσ)
  cases hc with
  | asks hr hs hK hq =>
    have halike : m.Alike m₁ := ⟨hq, hclients⟩
    have hsame {σ : Task} (hσ : σ ≠ τ) : m.Same m' σ := (halike.same σ).trans (hn.same hσ)
    obtain ⟨hbench, hp, hown, hu⟩ := hn.of_running
    refine .owed (fun σ hσ => hsame (hne hσ)) (.active hp ?_ hr hs (hbench ▸ hK) ?_)
      ((halike.same τ).then_unanswered hu)
    · exact hown.mpr ((halike.same τ).last.mpr hlast)
    · exact hrest.same fun σ hσ => hsame fun he => hσ (he ▸ List.mem_cons_self)
  | ends hK hq =>
    have halike : m.Alike m₁ := ⟨hq, hclients⟩
    have hsame {σ : Task} (hσ : σ ≠ τ) : m.Same m' σ := (halike.same σ).trans (hn.same hσ)
    obtain ⟨hbench, hx, hstill⟩ := hn.of_ended
    refine .answered (fun σ hσ => hsame (hne hσ)) ((halike.same τ).then_replies hx) ?_
      fun σ hσ => ?_
    · rw [hbench]
      exact hK
    · by_cases he : σ = τ
      · subst he
        exact hstill ((halike.same σ).last.mpr hlast)
      · exact (hsame he).still.mpr (hrest σ fun hmem => (List.mem_cons.mp hmem).elim he hσ)
  | @awaits t next w hJ hs hq ho hi hK =>
    -- The job is of a lower rank than all that wait for it, so they stay as they are.
    have hrank : t.lane.rank < τ.rank := by
      simpa only [Task.Below, lane_job] using hJ
    have hlower {σ : Task} (hσ : σ ∈ τ :: above) : σ ≠ .job t.lane := by
      rintro rfl
      rcases List.mem_cons.mp hσ with rfl | hmem
      · exact Nat.lt_irrefl _ hrank
      · exact Nat.lt_irrefl _ (Nat.lt_trans hrank (habove _ hmem))
    have hpassed {σ : Task} (hσ : σ ≠ .job t.lane) : m.Same m₁ σ := by
      cases σ with
      | job lane => exact ho lane fun he => hσ (congrArg _ he)
      | client i => simp only [Same, rest?, hclients]
    have hsame {σ : Task} (hσ : σ ≠ τ) (hσ' : σ ≠ .job t.lane) : m.Same m' σ :=
      (hpassed hσ').trans (hn.same hσ)
    have hτ := hlower List.mem_cons_self
    obtain ⟨hw, hlast', hplace⟩ := next_of_finished hm
      (hrest (.job t.lane) fun hmem => hlower hmem rfl) ((hn.queue t.lane hτ.symm).trans hq)
    obtain ⟨hbench, hp, hown, hu⟩ := hn.of_running
    refine .owed (fun σ hσ => hsame (hne hσ) (hlower (List.mem_cons_of_mem _ hσ)))
      (.waiting hp (hown.mpr ((hpassed hτ).last.mpr hlast)) hs hrank (hplace.trans hi.symm)
        (.queued hw hlast' ?_ fun σ hσ => ?_)) ((hpassed hτ).then_unanswered hu)
    · change (t.lane.program m'.bench.config (m'.bench.value t.lane) w).Leads D m'.bench _
      rw [hbench]
      exact hK
    · obtain ⟨hσ', hσ⟩ := not_or.mp fun h => hσ (List.mem_cons.mpr h)
      exact (hsame (fun he => hσ (he ▸ List.mem_cons_self)) hσ').still.mpr (hrest σ hσ)

theorem Fares.of_advance {p : Program τ.Result} (hm : m.Ordered) (halike : m.Alike m₂)
    (hs : p.Serial τ.Below none) (hl : p.Leads D m₂.bench (τ.closing K))
    (hD : ∀ d ∈ m₂.deeds now p, D d) (hn : Noted τ (m₂.advance now p).2 (m₂.advance now p).1 m')
    (hrest : m.Rests (τ :: above)) (hlast : m.Last τ) (habove : ∀ σ ∈ above, τ.rank < σ.rank) :
    Fares D m m' above τ K :=
  .of_comes hm ((advance_comes hs hl hD).of_queue halike.queue) hn
    ((advance_turn m₂ now p).clients.trans halike.clients) hrest hlast habove

theorem opening_serial (m : Machine) (lane : Lane) (w : lane.Work) :
    (m.opening lane w).Serial (Task.job lane).Below none := by
  cases lane with
  | policy =>
    exact serial_of_within (direct_of_within (opening_within m .policy w) (fun _ => id)
      (fun _ => id) fun _ _ => trivial)
  | requests =>
    exact DeviceRequest.program_serial _ w (fun _ => by simp [Task.Below, Task.rank, Job.lane,
      Lane.rank]) (by simp [Task.Below, Task.rank, Job.lane, Lane.rank])
  | finalization =>
    exact serial_of_within (direct_of_within (opening_within m .finalization w) (fun _ => id)
      (fun _ => id) fun _ _ => trivial)

theorem Owed.alike (h : Owed D m above τ K) (hm : m.Alike m') (hb : m'.bench = m.bench) :
    Owed D m' above τ K := by
  have hrests {busy : List Task} (h : m.Rests busy) : m'.Rests busy :=
    h.same fun σ _ => hm.same σ
  induction h with
  | queued hw hlast hK hrest =>
    refine .queued (by rwa [hm.queue]) ((hm.same _).last.mpr hlast) ?_ (hrests hrest)
    change (Lane.program m'.bench.config _ (m'.bench.value _) _).Leads D m'.bench _
    rwa [hb]
  | active hp hlast hr hs hK hrest =>
    exact .active ((hm.same _).rest.trans hp) ((hm.same _).last.mpr hlast) hr hs (hb ▸ hK)
      (hrests hrest)
  | ready hp hlast hx hs hK hrest =>
    refine .ready ((hm.same _).rest.trans hp) ((hm.same _).last.mpr hlast) ?_ hs (hb ▸ hK)
      (hrests hrest)
    rw [answer?_eq, hm.queue, ← answer?_eq]
    exact hx
  | waiting hp hlast hs hrank hplace _ ih =>
    exact .waiting ((hm.same _).rest.trans hp) ((hm.same _).last.mpr hlast) hs hrank
      (by rwa [hm.queue]) ih

theorem Rests.turn {σ : Task} (hrest : m.Rests (τ :: above)) (hs : m.step? now a = some m')
    (ht : a.task? = some σ) (hout : ∀ ρ ∈ above, a.task? ≠ some ρ) : σ = τ := by
  by_contra hne
  refine (hrest σ fun hmem => ?_).stays ht hs
  exact (List.mem_cons.mp hmem).elim hne fun hmem => hout σ hmem ht

theorem resume_of_rest {p : Program τ.Result} (hp : m.rest? τ = some p)
    (hs : m.step? now a = some m') (ha : a.Undisturbed) (ht : a.task? = some τ) :
    ∃ c, a = .resume τ c ∧ c.Calm := by
  cases a with
  | start lane =>
    cases ht
    obtain ⟨w, hw, -⟩ := start_goes hs
    cases hp.symm.trans (idle_of_next hw)
  | resume τ c =>
    cases ht
    exact ⟨c, rfl, ha⟩
  | _ => cases ht

theorem start_of_waiting {lane : Lane} {w : lane.Work}
    (hw : (m.engine.queue lane).next? = some w) (hs : m.step? now a = some m')
    (ht : a.task? = some (.job lane)) : a = .start lane := by
  cases a with
  | start other =>
    cases ht
    rfl
  | resume τ c =>
    cases ht
    obtain ⟨p, -, -, hp, -⟩ := resume_cases hs
    cases hp.symm.trans (idle_of_next hw)
  | _ => cases ht

section Fares

variable {t : Ticket} {c : Conduct}

theorem Fares.of_start {lane : Lane} {w : lane.Work} (hm : m.Ordered)
    (habove : ∀ σ ∈ above, (Task.job lane).rank < σ.rank)
    (hw : (m.engine.queue lane).next? = some w) (hlast : m.Last (.job lane))
    (hK : (m.opening lane w).Leads D m.bench ((Task.job lane).closing K))
    (hrest : m.Rests (.job lane :: above)) (hs : m.step? now (.start lane) = some m')
    (hD : ∀ d ∈ m.log now (.start lane), D d) : Fares D m m' above (.job lane) K := by
  obtain ⟨v, hv, hlog, hn⟩ := start_goes hs
  obtain rfl := Option.some.inj (hw.symm.trans hv)
  exact .of_advance hm ⟨fun _ => rfl, rfl⟩ (opening_serial m lane w) hK (hlog ▸ hD) hn hrest hlast
    habove

theorem Fares.of_request {r : Request} {next : r.Answer → Program τ.Result} (hm : m.Ordered)
    (habove : ∀ σ ∈ above, τ.rank < σ.rank) (hp : m.rest? τ = some (.wait r next))
    (hlast : m.Last τ) (hr : ∀ t, r ≠ .await t) (hserial : (wait r next).Serial τ.Below none)
    (hK : (wait r next).Leads D m.bench (τ.closing K)) (hrest : m.Rests (τ :: above))
    (hs : m.step? now (.resume τ c) = some m') (hc : c.Calm)
    (hD : ∀ d ∈ m.log now (.resume τ c), D d) : Fares D m m' above τ K := by
  obtain ⟨_, _, x, m₂, hp', hx, hlog, hn⟩ := resume_goes hs hc
  cases hp.symm.trans hp'
  obtain ⟨hdeed, hD⟩ := List.forall_mem_cons.mp (hlog ▸ hD)
  have hdirect : (Deed.request r x).Within .direct := by
    cases r <;> first | trivial | exact absurd rfl (hr _)
  have hdoes : m.Does (.request r x) m₂ := .request hx
  refine .of_advance hm (respond_alike hx) (hserial.2 x) ?_ hD hn hrest hlast habove
  rw [hdoes.bench]
  exact hK.wait hdirect hdeed (respond_core hx).1

theorem Fares.of_answer {next : Except Fault Reply → Program τ.Result} {x : Except Fault Reply}
    (hm : m.Ordered) (habove : ∀ σ ∈ above, τ.rank < σ.rank)
    (hp : m.rest? τ = some (.wait (.await t) next)) (hlast : m.Last τ)
    (hanswer : m.engine.answer? t = some x) (hserial : (next x).Serial τ.Below none)
    (hK : (next x).Leads D m.bench (τ.closing K)) (hrest : m.Rests (τ :: above))
    (hs : m.step? now (.resume τ c) = some m') (hc : c.Calm)
    (hD : ∀ d ∈ m.log now (.resume τ c), D d) : Fares D m m' above τ K := by
  obtain ⟨_, _, _, m₂, hp', hx, hlog, hn⟩ := resume_goes hs hc
  cases hp.symm.trans hp'
  obtain ⟨-, hD⟩ := List.forall_mem_cons.mp (hlog ▸ hD)
  cases responds hx with
  | awaited hx =>
    obtain rfl := Option.some.inj (hanswer.symm.trans hx)
    exact .of_advance hm ⟨fun _ => rfl, rfl⟩ hserial hK hD hn hrest hlast habove

theorem Fares.waits {next : Except Fault Reply → Program τ.Result}
    (h : Fares D m m' (τ :: above) (.job t.lane) fun x s => (next x).Leads D s (τ.closing K))
    (hp : m.rest? τ = some (.wait (.await t) next)) (hlast : m.Last τ)
    (hserial : ∀ x, (next x).Serial τ.Below none) (hrank : t.lane.rank < τ.rank)
    (hplace : (m.engine.queue t.lane).ended.length = t.index) : Fares D m m' above τ K := by
  cases h with
  | owed hsame h hu =>
    obtain ⟨hτ, hsame⟩ := List.forall_mem_cons.mp hsame
    have hplace' : (m'.engine.queue t.lane).ended = (m.engine.queue t.lane).ended := hu
    exact .owed hsame (.waiting (hτ.rest.trans hp) (hτ.last.mpr hlast) hserial hrank
      (by rwa [hplace']) h) hτ.unanswered
  | @answered x hsame hx hK hrest =>
    obtain ⟨hτ, hsame⟩ := List.forall_mem_cons.mp hsame
    obtain ⟨e, he, rfl⟩ := hx
    refine .owed hsame (.ready (hτ.rest.trans hp) (hτ.last.mpr hlast) ?_ (hserial _) hK hrest)
      hτ.unanswered
    rw [answer?_eq, JobQueue.answer?, he, ← hplace, List.getElem?_concat_length]
    rfl

theorem not_resumed_of_waiting {next : Except Fault Reply → Program τ.Result} (hm : m.Ordered)
    (hp : m.rest? τ = some (.wait (.await t) next))
    (hplace : (m.engine.queue t.lane).ended.length = t.index) (hs : m.step? now a = some m')
    (ha : a.Undisturbed) : a.task? ≠ some τ := by
  intro ht
  obtain ⟨c, rfl, hc⟩ := resume_of_rest hp hs ha ht
  obtain ⟨_, _, _, m₂, hp', hx, -⟩ := resume_goes hs hc
  cases hp.symm.trans hp'
  cases responds hx with
  | awaited hx =>
    rw [answer?_eq, JobQueue.answer?, List.getElem?_eq_none (Nat.le_of_eq hplace)] at hx
    simp [(hm t.lane).live] at hx

end Fares

theorem Owed.step (h : Owed D m above τ K) (hm : m.Ordered)
    (habove : ∀ σ ∈ above, τ.rank < σ.rank) (hs : m.step? now a = some m') (ha : a.Undisturbed)
    (hout : ∀ σ ∈ above, a.task? ≠ some σ) (hD : ∀ d ∈ m.log now a, D d) :
    Fares D m m' above τ K := by
  cases ht : a.task? with
  | none =>
    obtain ⟨halike, hbench⟩ := step_of_no_task hs ha ht
    exact .owed (fun σ _ => halike.same σ) (h.alike halike hbench) (halike.same _).unanswered
  | some σ =>
    -- The others are still, so the step is one of the task that the rest of them wait for.
    induction h with
    | queued hw hlast hK hrest =>
      obtain rfl := hrest.turn hs ht hout
      obtain rfl := start_of_waiting hw hs ht
      exact .of_start hm habove hw hlast hK hrest hs hD
    | active hp hlast hr hserial hK hrest =>
      obtain rfl := hrest.turn hs ht hout
      obtain ⟨c, rfl, hc⟩ := resume_of_rest hp hs ha ht
      exact .of_request hm habove hp hlast hr hserial hK hrest hs hc hD
    | ready hp hlast hanswer hserial hK hrest =>
      obtain rfl := hrest.turn hs ht hout
      obtain ⟨c, rfl, hc⟩ := resume_of_rest hp hs ha ht
      exact .of_answer hm habove hp hlast hanswer hserial hK hrest hs hc hD
    | @waiting above τ K t next hp hlast hserial hrank hplace _ ih =>
      have hself := not_resumed_of_waiting hm hp hplace hs ha
      have hlower : ∀ ρ ∈ τ :: above, (Task.job t.lane).rank < ρ.rank :=
        List.forall_mem_cons.mpr ⟨hrank, fun ρ hρ => Nat.lt_trans hrank (habove ρ hρ)⟩
      exact (ih hlower (List.forall_mem_cons.mpr ⟨hself, hout⟩)).waits hp hlast hserial hrank hplace

section Performs

variable {P : Action → Prop} {b : Machine} {op : Operation} {x : Except Fault Reply}

structure Performs (P : Action → Prop) (b : Machine) (op : Operation) (x : Except Fault Reply)
    (m : Machine) : Prop where
  run : ∃ now m₁, b.step? now (.call op) = some m₁ ∧
    Reaches (fun a => P a ∧ a.Undisturbed) m₁ m
  answered : b.caller m = some (.answered x)

theorem Performs.reaches (h : Performs P b op x m) (hcall : P (.call op)) : Reaches P b m := by
  obtain ⟨now, m₁, hs, hr⟩ := h.run
  exact (Reaches.step (.refl b) hcall hs).trans (hr.mono fun _ => And.left)

theorem Quiescent.rests (hq : b.Quiescent) : b.Rests [] := by
  intro τ _
  cases τ with
  | job lane => exact ⟨hq.idle lane, hq.next lane⟩
  | client i =>
    simp only [Still, rest?]
    split
    · rename_i p hp
      exact absurd (List.mem_of_getElem? hp) (hq.clients p)
    · rfl

theorem Rests.quiescent (h : m.Rests []) : m.Quiescent where
  idle := fun lane => (h (.job lane) (by simp)).1
  next := fun lane => (h (.job lane) (by simp)).2
  clients := fun p hp => by
    obtain ⟨i, hi⟩ := List.getElem?_of_mem hp
    have hstill : m.rest? (.client i) = none := h (.client i) (by simp)
    simp [rest?, hi] at hstill

theorem launch_fares {now : Timestamp} (hq : b.Quiescent) (hb : b.Ordered)
    (hs : b.step? now (.call op) = some m)
    (hK : (op.program b.engine.config).Leads D b.bench K)
    (hD : ∀ d ∈ b.log now (.call op), D d) :
    Fares D b m [] (.client b.engine.clients.length) K := by
  obtain rfl := call_cases hs
  have hn := noted_launch (b.advance now (op.program b.engine.config)).1
    (b.advance now (op.program b.engine.config)).2
  rw [(advance_turn b now _).clients] at hn
  refine .of_advance (τ := .client b.engine.clients.length) hb ⟨fun _ => rfl, rfl⟩
    (Operation.program_serial _ op fun j => ?_) hK hD ?_ (fun σ hσ => ?_) trivial (by simp)
  · cases j <;> simp [Task.Below, Task.rank, Job.lane, Lane.rank]
  · simpa only [launch, (advance_turn b now _).clients] using hn
  · exact hq.rests σ (by simp)

theorem Owed.client_rests {i : Nat} (h : Owed D m above (.client i) K) :
    m.rest? (.client i) ≠ none := by
  intro hrest
  cases h with
  | active hp => cases hp.symm.trans hrest
  | ready hp => cases hp.symm.trans hrest
  | waiting hp => cases hp.symm.trans hrest

def Bound (D : Deed → Prop) (m : Machine) (i : Nat) (K : Except Fault Reply → Bench → Prop) :
    Prop :=
  Owed D m [] (.client i) K ∨
    ∃ x, m.engine.clients[i]? = some (.answered x) ∧ K x m.bench ∧ m.Rests []

theorem Fares.bound {i : Nat} (h : Fares D b m [] (.client i) K) : Bound D m i K := by
  cases h with
  | owed _ h _ => exact .inl h
  | answered _ hx hK hrest => exact .inr ⟨_, hx, hK, hrest⟩

theorem Bound.alike {i : Nat} (h : Bound D m i K) (hm : m.Alike m') (hb : m'.bench = m.bench) :
    Bound D m' i K := by
  rcases h with h | ⟨y, hy, hK, hrest⟩
  · exact .inl (h.alike hm hb)
  · exact .inr ⟨y, hm.clients ▸ hy, by rwa [hb], hrest.same fun σ _ => hm.same σ⟩

theorem Bound.step {i : Nat} (h : Bound D m i K) (hm : m.Ordered) (hs : m.step? now a = some m')
    (ha : a.Undisturbed) (hD : ∀ d ∈ m.log now a, D d) : Bound D m' i K := by
  rcases h with h | ⟨y, hy, hK, hrest⟩
  · exact (h.step hm (by simp) hs ha (by simp) hD).bound
  · -- Nothing is left to do, so the step is one of no task.
    have htask : a.task? = none := by
      cases ht : a.task? with
      | none => rfl
      | some σ => exact absurd hs ((hrest σ (by simp)).stays ht)
    obtain ⟨halike, hbench⟩ := step_of_no_task hs ha htask
    exact Bound.alike (.inr ⟨y, hy, hK, hrest⟩) halike hbench

theorem Bound.answered {i : Nat} (h : Bound D m i K) (hq : m.rest? (.client i) = none) :
    ∃ x, m.engine.clients[i]? = some (.answered x) ∧ K x m.bench ∧ m.Rests [] :=
  h.resolve_left fun h => h.client_rests hq

theorem bound_of_reaches {now : Timestamp} (hb : b.Reachable) (hq : b.Quiescent)
    (hs : b.step? now (.call op) = some m₁)
    (hr : Reaches (fun a => P a ∧ a.Undisturbed) m₁ m) (hcall : P (.call op))
    (hD : ∀ m₁ now a m₂, Reaches P b m₁ → P a → m₁.step? now a = some m₂ →
      ∀ d ∈ m₁.log now a, D d)
    (hK : (op.program b.engine.config).Leads D b.bench K) :
    Bound D m b.engine.clients.length K := by
  have hfirst : Reaches P b m₁ := .step (.refl b) hcall hs
  induction hr with
  | refl => exact (launch_fares hq hb.ordered hs hK (hD b now _ m₁ (.refl b) hcall hs)).bound
  | step hr ha hs ih =>
    have hreaches := hfirst.trans (hr.mono fun _ => And.left)
    exact ih.step (hb.trans hreaches).ordered hs ha.2 (hD _ _ _ _ hreaches ha.1 hs)

theorem Performs.executes (h : Performs P b op x m) (hb : b.Reachable) (hq : b.Quiescent)
    (hcall : P (.call op))
    (hD : ∀ m₁ now a m₂, Reaches P b m₁ → P a → m₁.step? now a = some m₂ →
      ∀ d ∈ m₁.log now a, D d) :
    (∃ l, Ends (op.program b.engine.config) l x ∧ Executes D b.bench l m.bench) ∧
      m.Quiescent := by
  obtain ⟨⟨now, m₁, hs, hr⟩, hx⟩ := h
  -- What is to hold in the end is that there are such deeds.
  have hbound := bound_of_reaches (K := fun y s =>
    ∃ l, Ends (op.program b.engine.config) l y ∧ Executes D b.bench l s) hb hq hs hr hcall hD
    (fun l y s hl hls => ⟨l, hl, hls⟩)
  have hrest : m.rest? (.client b.engine.clients.length) = none := by
    simp only [rest?, show m.engine.clients[b.engine.clients.length]? = _ from hx]
  obtain ⟨y, hy, hK, hrest⟩ := hbound.answered hrest
  obtain rfl := Client.answered.inj (Option.some.inj (hx.symm.trans hy))
  exact ⟨hK, hrest.quiescent⟩

theorem Performs.of_run {now : Timestamp} {l : List Action}
    (hr : b.run? now (.call op :: l) = some m) (hl : ∀ a ∈ l, P a ∧ a.Undisturbed)
    (hx : b.caller m = some (.answered x)) : Performs P b op x m := by
  obtain ⟨m₁, hs, hr⟩ := Option.bind_eq_some_iff.mp hr
  exact ⟨⟨now, m₁, hs, (Reaches.refl m₁).run hl hr⟩, hx⟩

end Performs

end Machine

end DeviceLock
