import DeviceLock.Proofs.Simulation.Service

namespace DeviceLock.Simulation

open Program

variable {S : Setting} {path : String} {s s' : Simulation} {m m' : Machine} {i n : Nat}
  {K : Except Fault Reply → Bench → Prop}

theorem fuel_eq_succ : ∃ k, fuel = k + 1 := ⟨999999, rfl⟩

theorem runUntil_settle {α : Type} (result? : Simulation → Option α) (limit : Option Nat)
    (h : s.settle.agenda.entries = []) :
    s.runUntil result? limit fuel = match result? s.settle with
      | some a => (s.settle, some a)
      | none => ({ s.settle with now := limit.getD s.settle.now }, none) := by
  obtain ⟨k, hk⟩ := fuel_eq_succ
  have htick : s.settle.tick? limit = none := by
    simp [tick?, Agenda.next?, h]
  rw [hk, runUntil]
  cases result? s.settle with
  | some a => rfl
  | none => simp only [htick]

theorem Undertakes.runReady (h : Undertakes S path i K n s m) (hended : m.CallbacksEnded)
    {fuel : Nat} (hn : n ≤ fuel) :
    ∃ k m', Undertakes S path i K k (runReady fuel s) m' ∧ m'.CallbacksEnded ∧
      (runReady fuel s).runOnce? = none := by
  induction fuel generalizing s m n with
  | zero =>
    refine ⟨n, m, h, hended, Option.eq_none_iff_forall_ne_some.mpr fun s' hs => ?_⟩
    obtain ⟨k, hk, -⟩ := h.step hended hs
    omega
  | succ fuel ih =>
    rw [Simulation.runReady]
    cases hs : s.runOnce? with
    | none => exact ⟨n, m, h, hended, hs⟩
    | some s' =>
      obtain ⟨k, hk, m', h', hended'⟩ := h.step hended hs
      exact ih h' hended' (by omega)

structure Rests (path : String) (s : Simulation) (m : Machine) : Prop where
  serves : s.Serves m
  stored : s.Stores path m.world.document
  sound : m.Sound
  quiescent : m.Quiescent
  ended : m.CallbacksEnded
  started : ∀ w, m.engine.scheduler.slot = some w → w.phase ≠ .starting

theorem Rests.runTask (h : s.Rests path m) (τ : Task) : s.runTask? 0 m.engine τ = none := by
  have hstill := h.quiescent.rests τ (by simp)
  cases τ with
  | client i =>
    have hrequest : m.engine.request? (.client i) = none := by
      rw [request_eq_asked m _ {}, Machine.asked?]
      have hrest : m.rest? (.client i) = none := hstill
      simp only [Machine.rest?] at hrest
      split at hrest
      · cases hrest
      · rename_i hrunning
        split
        · exact absurd ‹_› (hrunning _)
        · rfl
    simp only [runTask?, hrequest]
  | job lane =>
    obtain ⟨hidle, hnext⟩ := hstill
    have hrequest : m.engine.request? (.job lane) = none := by
      rw [request_eq_asked m _ {}, Machine.asked?, hidle]
    have hstart : m.start? s.wall lane = none := by
      refine Option.eq_none_iff_forall_ne_some.mpr fun m' hs => ?_
      have hstep : m.step? s.wall (.start lane) = some m' := hs
      obtain ⟨w, hw, -⟩ := Machine.start_cases hstep
      exact absurd (hnext.symm.trans hw) (by simp)
    simp only [runTask?, hrequest, act?, h.serves.onEngine, hstart, Option.map_none,
      Option.bind_eq_bind, Option.bind_none]

theorem Rests.settle (h : s.Rests path m) : s.settle = s := by
  have hstart : s.startWork? 0 = none := by
    simp only [startWork?, h.serves.scheduler, Option.bind_eq_bind, Option.bind_some]
    cases hw : m.engine.scheduler.slot with
    | none => rfl
    | some w => simp [h.started w hw]
  have htasks : m.engine.tasks.findSome? (s.runTask? 0 m.engine) = none :=
    List.findSome?_eq_none_iff.mpr fun τ _ => h.runTask τ
  have hnone : s.runOnce? = none := by
    rw [h.serves.runOnce, hstart, htasks]
    rfl
  obtain ⟨k, hk⟩ := fuel_eq_succ
  rw [Simulation.settle, hk, Simulation.runReady, hnone]

theorem Undertakes.settle (h : Undertakes S path i K n s m) (hended : m.CallbacksEnded)
    (hn : n ≤ fuel) :
    ∃ m' x, s.settle.Rests path m' ∧ s.settle.setting = S ∧
      m'.engine.clients[i]? = some (.answered x) ∧ K x m'.bench := by
  obtain ⟨k, m', h', hended', hnone⟩ := h.runReady hended hn
  obtain ⟨hq, x, hx, hK⟩ := h'.pursues.answered (h'.not_ready hended' hnone)
  refine ⟨m', x, ⟨h'.serves, h'.stored, h'.pursues.sound, hq, hended', fun w hw hphase => ?_⟩,
    h'.setting, hx, hK⟩
  rw [h'.serves.runOnce, Option.or_eq_none_iff] at hnone
  simp [startWork?, h'.serves.scheduler, hw, hphase] at hnone

theorem Serves.current (h : s.Serves m) : s.current = 0 := by
  rw [Simulation.current, h.engines]
  rfl

theorem Rests.call (h : s.Rests path m) (op : Operation)
    (hK : (op.program m.engine.config).Leads (Deed.Expected s.setting) m.bench K) :
    ∃ s' m' x, s.call (op.program s.config) = (s', some (.answered x)) ∧ s'.Rests path m' ∧
      s'.setting = s.setting ∧ m'.engine.config = m.engine.config ∧ K x m'.bench := by
  have hconfigured : (op.program m.engine.config).Leads (Deed.Expected s.setting) m.bench
      fun r b => K r b ∧ b.config = m.engine.config :=
    fun l r b hl hx => ⟨hK l r b hl hx, hx.config⟩
  have hs : m.step? s.setting.wall (.call op) =
      some (m.launch s.wall (op.program m.engine.config)) := rfl
  have hpursues := Machine.Pursues.of_call h.sound h.quiescent hs hconfigured
  have hdocument : (m.launch s.wall (op.program m.engine.config)).world.document =
      m.world.document := Machine.advance_document m s.wall _
  have hcalls : ∀ reason x,
      .request (.call (.terminate reason)) x ∉ m.log s.setting.wall (.call op) := by
    intro reason x hx
    obtain ⟨_, _, _, hcall, -⟩ := Machine.log_respond hx
    cases hcall
  obtain ⟨s₁, m₁, hact, h₁, hended₁⟩ := Undertakes.acts
    (f := fun b => some (b.launch s.wall (op.program m.engine.config)))
    h.serves rfl rfl hs trivial (by simp) (hdocument.symm ▸ h.stored) hpursues h.ended hcalls
  obtain ⟨m', x, hrests, hsetting, hx, hK, hconfig⟩ := h₁.settle hended₁ (by decide)
  refine ⟨s₁.settle, m', x, ?_, hrests, hsetting, hconfig, hK⟩
  have hlaunch : s.launch (op.program s.config) = (s₁, m.engine.clients.length) := by
    simp only [launch, h.serves.current, h.serves.config, hact, h.serves.engines,
      List.getElem?_cons_zero, Option.map_some, Option.getD_some]
  simp only [Simulation.call, hlaunch, Simulation.await, h₁.serves.current,
    runUntil_settle _ _ hrests.serves.agenda, hrests.serves.engines, List.getElem?_cons_zero,
    Option.bind_eq_bind, Option.bind_some, hx, Client.result?]

theorem Rests.later (h : s.Rests path m) (now : Nat) (wall : Timestamp) :
    Rests path { s with now, wall } m where
  serves := ⟨h.serves.engines, h.serves.world, h.serves.hushed, h.serves.config,
    h.serves.capabilities, h.serves.succeeds, h.serves.agenda, h.serves.script, h.serves.failures,
    h.serves.unended⟩
  stored := h.stored
  sound := h.sound
  quiescent := h.quiescent
  ended := h.ended
  started := h.started

theorem Rests.waitFor (h : s.Rests path m) (work ms : Nat) :
    ∃ now, (s.waitFor work ms).1 = { s with now } := by
  have hagenda : s.settle.agenda.entries = [] := by
    rw [h.settle]
    exact h.serves.agenda
  simp only [Simulation.waitFor, runUntil_settle _ _ hagenda, h.settle]
  split
  · exact ⟨s.now, rfl⟩
  · exact ⟨s.now + ms, rfl⟩

end DeviceLock.Simulation
