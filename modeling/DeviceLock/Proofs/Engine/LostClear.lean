import DeviceLock.Proofs.Engine.Notice
import DeviceLock.Proofs.Program.Sealing

namespace DeviceLock

open Program Lane

def Regime.stranded : Regime where
  lane
    | .policy => Lane.policy.footprint
    | .requests => {
        acts := fun
          | .pseudo | .setPseudo _ => True
          | _ => False
        requests := Footprint.measuring.requests
        answers := fun
          | .load, .ok d => d.device = .cleared
          | _, _ => True }
    | .finalization => {
        acts := fun _ => False
        requests := fun r => r = .load
        answers := fun
          | .load, .ok d => d.finalization = .unfinalized
          | _, _ => True }
  caller := .caller (· ≠ .finalization .cleared)
  ends
    | .finalization, .ok (v, _) => v = some .unfinalized
    | _, _ => True

theorem Regime.stranded_of_cases {a : Action} {d : Deed} (h : d.Within (stranded.of a)) :
    d.Within (.caller (· ≠ .finalization .cleared)) ∨ ∃ lane, d.Within (stranded.lane lane) := by
  unfold Regime.of at h
  split at h
  · exact .inr ⟨_, h⟩
  · exact .inl h

theorem Regime.stranded_deeds {a : Action} {d : Deed} (h : d.Within (stranded.of a)) :
    (∀ s u, d ≠ .request (.write (.device s)) (.ok u)) ∧ ¬ finalization.Owns d ∧
      .cleared ∉ d.submitted .finalization := by
  have h := stranded_of_cases h
  cases d with
  | act a x =>
    refine ⟨by simp, id, ?_⟩
    cases a with
    | submit j =>
      rcases h with h | ⟨lane, h⟩
      · intro hmem
        exact h (Engine.job_of_mem_added hmem).symm
      · cases lane <;> exact h.elim
    | _ => simp [Deed.submitted]
  | request r x =>
    refine ⟨?_, ?_, by simp [Deed.submitted]⟩
    · rintro s u ⟨⟩
      rcases h with h | ⟨lane, h⟩
      · rcases h with h | h <;> cases h
      · cases lane with
        | policy => rcases h with h | h <;> cases h
        | requests => exact h
        | finalization => cases h
    · cases r with
      | write k =>
        cases x with
        | error f => exact id
        | ok u =>
          intro hk
          have hk : k.key = .finalization := hk
          rcases h with h | ⟨lane, h⟩
          · rcases h with h | h <;> cases h.symm.trans hk
          · cases lane with
            | policy => rcases h with h | h <;> cases h.symm.trans hk
            | requests => exact h
            | finalization => cases h
      | _ => exact id

namespace Program

theorem effective_stranded :
    effective.Meets (Regime.stranded.lane .requests) fun r =>
      ∀ p d, r = .ok (p, d) → p ≠ .unprovisioned → d = .cleared := by
  change (cursor >>= _).Meets _ _
  refine meets_bind.mpr ⟨trivial, fun x _ => ?_⟩
  cases x with
  | error f => rintro p d ⟨⟩
  | ok p =>
    change (if p = .unprovisioned then _ else _ : Program _).Meets _ _
    split
    · rename_i hp
      refine ⟨trivial, fun s => ?_⟩
      rintro _ d ⟨⟩ h
      exact absurd hp h
    · refine meets_bind.mpr ⟨trivial, fun x hx => ?_⟩
      cases x with
      | error f => rintro p d ⟨⟩
      | ok doc =>
        rintro _ _ ⟨⟩ -
        exact hx

theorem carryOut_stranded (config : DeviceConfig) (request : DeviceRequest) :
    (carryOut config request).Within (Regime.stranded.lane .requests) := by
  rw [carryOut_eq]
  refine meets_bind.mpr (effective_stranded.imp fun r hr => ?_)
  rcases r with e | ⟨p, d⟩
  · trivial
  dsimp only [Then]
  split
  · exact within_done _
  · exact within_bind (within_perform trivial) fun _ => within_pure _
  · rename_i target hplan
    have hkiosk := (DeviceRequest.plan_persist hplan).1
    have hp : p ≠ .unprovisioned := by
      rintro rfl
      cases hkiosk
    obtain rfl := hr p d rfl hp
    rw [DeviceRequest.plan_cleared hp] at hplan
    cases hplan

theorem finalization_stranded {config : RecoveryConfig} {cached : Option FinalizationState}
    {job : FinalizationJob} (hc : cached = none ∨ cached = some .unfinalized)
    (hj : job ≠ .cleared) :
    (finalization config cached job).Meets (Regime.stranded.lane .finalization) fun r =>
      ∀ s, r = .ok s → s = .unfinalized := by
  have hstored : (finalization config (some .unfinalized) job).Meets
      (Regime.stranded.lane .finalization) fun r => ∀ s, r = .ok s → s = .unfinalized := by
    cases job with
    | read => rintro s ⟨⟩; rfl
    | retry => rintro s ⟨⟩; rfl
    | cleared => exact absurd rfl hj
  rcases hc with rfl | rfl
  · rw [finalization_none]
    refine meets_bind.mpr ⟨rfl, fun x hx => ?_⟩
    cases x with
    | error f => rintro s ⟨⟩
    | ok d =>
      have hd : d.finalization = .unfinalized := hx
      change (finalization config (some d.finalization) job).Meets _ _
      rw [hd]
      exact hstored
  · exact hstored

end Program

namespace Machine

variable {m m' : Machine} {now : Timestamp} {a : Action}

structure Lost (m : Machine) : Prop where
  device : m.world.document.device = .cleared
  stored : m.stored = .unfinalized
  cached : m.cached = none ∨ m.cached = some .unfinalized
  pending : ∀ i : Nat, (m.engine.queue .finalization).ended.length ≤ i →
    (m.engine.queue .finalization).submitted[i]? ≠ some .cleared
  follows : m.Follows .stranded

theorem Lost.admits (h : m.Lost) (ha : a ≠ .call .notifyCleared) :
    m.Admits now a .stranded where
  start := by
    rintro lane j rfl hj
    cases lane with
    | policy => exact (opening_within m .policy j).imp fun _ _ => trivial
    | requests =>
      exact (within_bind (carryOut_stranded _ _) fun _ => within_pure _).imp fun _ _ => trivial
    | finalization =>
      obtain ⟨hnext, -⟩ := JobQueue.lt_of_next hj
      have hne : j ≠ .cleared := by
        rintro rfl
        exact h.pending _ (Nat.le_refl _) hnext
      refine meets_bind.mpr ((finalization_stranded h.cached hne).imp fun r hr => ?_)
      cases r with
      | error f => trivial
      | ok s => exact congrArg some (hr s rfl)
  call := fun op hop => by
    subst hop
    apply Operation.program_within
    rintro j hj rfl
    exact ha (congrArg Action.call (Operation.cleared_mem_jobs hj))
  answers := answered_of_fits fun r x hx => by
    unfold Regime.of
    split
    · rename_i lane _
      cases r with
      | load =>
        cases x with
        | error f => cases lane <;> trivial
        | ok d =>
          obtain rfl : d = m.world.document := hx
          cases lane with
          | policy => trivial
          | requests => exact h.device
          | finalization => exact h.stored
      | _ => cases lane <;> trivial
    · trivial

theorem Lost.step (h : m.Lost) (hs : m.step? now a = some m') (ha : a ≠ .call .notifyCleared) :
    m'.Lost := by
  obtain ⟨hlog, hfollows⟩ := h.follows.step hs (h.admits ha)
  by_cases hr : a = .restart
  · subst hr
    obtain rfl := restart_cases hs
    exact ⟨h.device, h.stored, .inl rfl, by simp [Engine.queue, Engine.renewed], hfollows⟩
  have hframe := step_frame hs hr
  refine ⟨?_, ?_, ?_, fun i hi hmem => ?_, hfollows⟩
  · refine (hframe.core.device fun s u hmem => ?_).trans h.device
    exact (Regime.stranded_deeds (hlog _ hmem)).1 s u rfl
  · have hspares : Lane.finalization.Spares m.core m'.core :=
      spares_of_tells hframe.core fun d hd => (Regime.stranded_deeds (hlog d hd)).2.1
    exact Eq.trans hspares h.stored
  · rcases h.follows.value hs (h.admits ha) hr .finalization with hv | ⟨x, hv⟩
    · have hv : m'.cached = m.cached := hv
      rw [hv]
      exact h.cached
    · exact .inr hv
  · obtain ⟨hsub, hend⟩ := step_submitted hs hr .finalization
    rw [hsub] at hmem
    -- A job that waits was there before, or has been submitted by a deed of the regime.
    rcases Nat.lt_or_ge i (m.engine.queue .finalization).submitted.length with hlt | hge
    · rw [List.getElem?_append_left hlt] at hmem
      exact h.pending i (Nat.le_trans hend.length_le hi) hmem
    · rw [List.getElem?_append_right hge] at hmem
      obtain ⟨d, hd, hjob⟩ := List.mem_flatMap.mp (List.mem_of_getElem? hmem)
      exact (Regime.stranded_deeds (hlog d hd)).2.2 hjob

theorem Lost.reaches {P : Action → Prop} (h : m.Lost) (hr : Reaches P m m')
    (hP : ¬ P (.call .notifyCleared)) : m'.Lost := by
  induction hr with
  | refl => exact h
  | step _ ha hs ih => exact ih.step hs fun he => hP (he ▸ ha)

theorem Quiescent.follows (h : m.Quiescent) (G : Regime) : m.Follows G where
  job := fun lane _ hp => absurd (h.idle lane) (not_idle_of_running hp)
  client := fun p hp => absurd hp (h.clients p)

theorem lost_of_quiescent (hm : m.Reachable) (hq : m.Quiescent)
    (hd : m.world.document.device = .cleared) (hs : m.stored = .unfinalized) : m.Lost where
  device := hd
  stored := hs
  cached := by
    have hc := (coherent_or_lapsed hm (hq.idle .finalization)).resolve_right fun h => by
      rw [hs] at h
      cases h.2
    cases hcached : m.cached with
    | none => exact .inl rfl
    | some s => exact .inr (by rw [hc s hcached, hs])
  pending := fun i hi hmem => by
    have hlt := (List.getElem?_eq_some_iff.mp hmem).1
    have := hq.all_ended hm.ordered .finalization
    omega
  follows := hq.follows _

def Reissue (op : Operation) : Action → Prop
  | .call other => other = op
  | .start _ => True
  | .resume _ c => c.Willing
  | .callbackEnds _ _ r => r = .returned true
  | .drop _ | .activation _ | .restart => False

/-- The clear has come past its first half, or can be made to by a further clear or by the alarm
that retries its report. -/
def Resumable (m : Machine) : Prop :=
  m.stored ≠ .unfinalized ∨
    ∃ op, (op = .request .clear ∨ op = .alarm .finalizationReportRetry) ∧
      ∃ m', Reaches (Reissue op) m m' ∧ m'.stored = .finalized

theorem Lost.recovers (h : m.Lost) (hm : m.Reachable) (hq : m.Quiescent) :
    ∃ m', Reaches (Reissue .notifyCleared) m m' ∧ m'.stored = .finalized := by
  let b := m.launch epoch (await (.finalization .cleared))
  have hs : m.step? epoch (.call .notifyCleared) = some b := rfl
  have hb : b.Follows .usual := (hm.usual.step hs (admits_usual _ _ _)).2
  have hnext : b.engine.finalization.next? = some .cleared := by
    have hrun : (m.engine.queue .finalization).running = none := hq.idle .finalization
    have hlen := hq.all_ended hm.ordered .finalization
    have hlive := (hm.ordered .finalization).live
    change ((m.engine.queue .finalization).add [.cleared]).next? = _
    unfold JobQueue.next?
    rw [if_neg (by simp [hrun, hlive])]
    simp [JobQueue.add, hlen]
  obtain ⟨l, m', hw, hidle⟩ := exists_finalization_end (P := Reissue .notifyCleared) hb hnext
    trivial Conduct.willing_default Conduct.calm_default
  have hcall : Reissue .notifyCleared (.call .notifyCleared) := rfl
  refine ⟨m', (Reaches.step (.refl m) hcall hs).trans hw.reaches, ?_⟩
  apply finalized_of_works hb hnext hw hidle fun c hc => hc
  apply notice_reports
  rcases h.cached with hc | hc
  · intro s hs
    rw [show b.cached = none from hc] at hs
    cases hs
  · intro s hs
    rw [show b.cached = some .unfinalized from hc] at hs
    exact (Option.some.inj hs).symm.trans h.stored.symm

/-- A clear that is stored while nothing is in flight can be resumed exactly if it is past its first
half. Otherwise none that has stored it was answered, and no run finalizes it, whatever is called on
the way, unless a further notice is: that does. -/
theorem lost_clear (hm : m.Reachable) (hq : m.Quiescent)
    (hd : m.world.document.device = .cleared) :
    (m.Resumable ↔ m.stored ≠ .unfinalized) ∧
      (m.stored = .unfinalized →
        (∀ b l n, Clears b l n → Reaches (fun _ => True) n m → ¬ b.Acknowledges n) ∧
        (∀ m', Reaches (· ≠ .call .notifyCleared) m m' →
          m'.stored = .unfinalized ∧ m'.world.document.device = .cleared) ∧
        ∃ m', Reaches (Reissue .notifyCleared) m m' ∧ m'.stored = .finalized) := by
  refine ⟨⟨?_, .inl⟩, fun hs => ⟨fun b l n hclear hr hack => ?_, fun m' hr => ?_, ?_⟩⟩
  · rintro (h | ⟨op, hop, m', hr, hfin⟩)
    · exact h
    intro hs
    have hlost := (lost_of_quiescent hm hq hd hs).reaches hr fun h => by
      rcases hop with rfl | rfl <;> cases h
    rw [hlost.stored] at hfin
    cases hfin
  · have hn := hclear.works.reaches
    exact hr.stored (hn.usual hclear.reachable.usual) (hclear.finalizes hack) hs
  · have hlost := (lost_of_quiescent hm hq hd hs).reaches hr fun h => h rfl
    exact ⟨hlost.stored, hlost.device⟩
  · exact (lost_of_quiescent hm hq hd hs).recovers hm hq

def refusedClear : List Action :=
  [Action.call (.event .ready), .drop 0, .start .policy] ++ Action.goesOn .policy 6 ++
    [Action.callbackEnds 0 0 (.returned true)] ++ Action.goesOn .policy 2 ++
      [Action.call (.event .kiosk), .drop 1, .start .policy] ++ Action.goesOn .policy 4 ++
        [Action.callbackEnds 1 0 (.returned true)] ++ Action.goesOn .policy 2 ++
          [Action.call (.request .clear), .drop 2, .start .requests] ++ Action.goesOn .requests 3 ++
            [Action.start .policy] ++ Action.goesOn .policy 2 ++
              [Action.callbackEnds 2 0 (.returned false)] ++ Action.goesOn .policy 1 ++
                Action.goesOn .requests 1

theorem exists_refusedClear :
    ∃ m : Machine, m.Reachable ∧ m.Quiescent ∧ m.world.document.device = .cleared ∧
      m.stored = .unfinalized := by
  have hrun : ((plain ["restrictions"]).run? epoch refusedClear).any (fun m =>
      m.quiet && decide (m.world.document.device = .cleared) &&
        decide (m.stored = .unfinalized)) = true := rfl
  obtain ⟨m, hm, hp⟩ := (Option.any_eq_true _ _).mp hrun
  simp only [Bool.and_eq_true, decide_eq_true_eq] at hp
  obtain ⟨⟨hq, hd⟩, hs⟩ := hp
  exact ⟨m, ⟨{}, plain _, plain_fresh _, (Reaches.refl _).run (fun _ _ => trivial) hm⟩,
    quiescent_of_quiet hq, hd, hs⟩

theorem clear_lost :
    ∃ m : Machine, m.Reachable ∧ m.Quiescent ∧ m.world.document.device = .cleared ∧
      ¬ m.Resumable := by
  obtain ⟨m, hm, hq, hd, hs⟩ := exists_refusedClear
  refine ⟨m, hm, hq, hd, ?_⟩
  rintro (h | ⟨op, hop, m', hr, hfin⟩)
  · exact h hs
  have hlost := (lost_of_quiescent hm hq hd hs).reaches hr fun h => by
    rcases hop with rfl | rfl <;> cases h
  rw [hlost.stored] at hfin
  cases hfin

theorem lost_clear_refused :
    ∃ m : Machine, m.Reachable ∧ m.Quiescent ∧ m.world.document.device = .cleared ∧
      ¬ m.Resumable ∧ ∃ m', Reaches (Reissue .notifyCleared) m m' ∧ m'.stored = .finalized := by
  obtain ⟨m, hm, hq, hd, hs⟩ := exists_refusedClear
  obtain ⟨hiff, hlost⟩ := lost_clear hm hq hd
  exact ⟨m, hm, hq, hd, fun h => hiff.mp h hs, (hlost hs).2.2⟩

end Machine

end DeviceLock
