import DeviceLock.Proofs.Engine.TransitionProtocol
import Mathlib.Tactic.ByContra

namespace DeviceLock

open Program Lane

namespace ProvisionState

theorem hasKiosk_iff_of_next {p n : ProvisionState} {event : ProvisionEvent}
    (h : p.next event = some n) (he : event ≠ .kiosk) : n.hasKiosk = true ↔ p.hasKiosk = true := by
  revert h he
  cases p <;> cases event <;> cases n <;> decide

theorem next_kiosk {p n : ProvisionState} (h : p.next .kiosk = some n) :
    n = kioskProvisioned := by
  revert h
  cases p <;> cases n <;> decide

end ProvisionState

namespace Program

theorem cursor_of_write {config : DeviceConfig} {request : DeviceRequest} {l : List Deed}
    {q : Program DeviceState} {s : DeviceState} {u : Unit}
    (h : Walk (carryOut config request) l q) (hs : .request (.write (.device s)) (.ok u) ∈ l) :
    ∃ p k, l = .request .cursor (.ok p) :: k ∧ p.hasKiosk = true := by
  have hmeasuring {k : List Deed} {q : Program (ProvisionState × DeviceState)}
      (hk : Walk effective k q) : .request (.write (.device s)) (.ok u) ∉ k := fun hmem =>
    (effective_within.walk (fun _ _ => trivial) hk _ hmem).elim
  rw [carryOut_eq] at h
  rcases walk_bind h with ⟨q, hk, -⟩ | ⟨⟨p, d⟩, k, m, rfl, hk, hm⟩
  · exact absurd hs (hmeasuring hk)
  obtain ⟨k, rfl, -⟩ := ends_effective hk
  refine ⟨p, k ++ m, rfl, ?_⟩
  have hs := (List.mem_append.mp hs).resolve_left (hmeasuring hk)
  split at hm
  · obtain ⟨rfl, -⟩ := walk_done.mp hm
    cases hs
  · rename_i target _
    have hw : (do
        perform (.setPseudo target)
        return target).Within { acts := fun _ => True, requests := fun _ => False } :=
      within_bind (within_perform trivial) fun _ => within_pure _
    exact (hw.walk (fun _ _ => trivial) hm _ hs).elim
  · rename_i hplan
    exact (DeviceRequest.plan_persist hplan).1

end Program

namespace Machine

variable {m₀ b m m' : Machine} {now : Timestamp} {a : Action} {l : List Deed}

def KioskCommitted (m : Machine) : Prop :=
  ∃ v, (.transition .kiosk, .done v (.ok (.provision .kioskProvisioned))) ∈ m.engine.policy.outcomes

def KioskRunning (m : Machine) : Prop :=
  ¬ m.Idle .policy ∧
    m.engine.policy.submitted[m.engine.policy.ended.length]? = some (.transition .kiosk)

def Reads (m m' : Machine) : Prop :=
  (∃ next, m.engine.requests.running = some (.wait .cursor next)) ∧
    ∃ now c, m.step? now (.resume (.job .requests) c) = some m'

/-- On an orderly run from the one state to the other, a device request reads the cursor. -/
structure ReadsBetween (m₀ m₁ m₂ m : Machine) : Prop where
  before : Reaches Action.Orderly m₀ m₁
  reads : m₁.Reads m₂
  after : Reaches Action.Orderly m₂ m

def Provisioned (m : Machine) : Prop :=
  m.world.document.device ≠ .undefined → m.core.position.hasKiosk = true

structure Committed (m : Machine) : Prop where
  cursor : m.core.position.hasKiosk = true ↔ m.KioskCommitted
  ended : ∀ e, (.transition .kiosk, e) ∈ m.engine.policy.outcomes →
    ∃ v, e = .done v (.ok (.provision .kioskProvisioned)) ∨ ∃ f, e = .done v (.error f)

theorem hasKiosk_of_span {P : Action → Prop} {j : PolicyJob} (h : Span .policy P b j l m)
    (hj : j ≠ .transition .kiosk) :
    m.core.position.hasKiosk = true ↔ b.core.position.hasKiosk = true := by
  let Q (s : ProvisionState) : Prop := s.hasKiosk = true ↔ b.core.position.hasKiosk = true
  obtain ⟨q, hw⟩ := h.walk
  have hmoving : (b.opening .policy j).Within (.moving Q) :=
    PolicyJob.program_moving _ _ fun event he p n hnext hp =>
      (ProvisionState.hasKiosk_iff_of_next hnext fun hk => hj (hk ▸ he)).trans hp
  exact h.story.position_of_moving (Q := Q) hw hmoving Iff.rfl

theorem KioskCommitted.grows (h : m.KioskCommitted) {P : Action → Prop} (hr : Reaches P m m')
    (hP : ¬ P .restart) : m'.KioskCommitted := by
  obtain ⟨v, hv⟩ := h
  obtain ⟨hs, he⟩ := hr.grows hP .policy
  exact ⟨v, JobQueue.outcomes_subset hs he hv⟩

theorem kioskCommitted_of_outcomes
    (h : m.engine.policy.outcomes = b.engine.policy.outcomes) :
    m.KioskCommitted ↔ b.KioskCommitted := by
  rw [KioskCommitted, KioskCommitted, h]

theorem Committed.failed {m₁ : Machine} (hc : m.Committed) (hn : ¬ m.KioskCommitted)
    (hrun : m₁.KioskRunning) (h : Reaches (· ≠ .restart) m₁ m)
    (hq : m.engine.policy.ended.length = m.engine.policy.submitted.length) :
    ∃ v f, m.engine.policy.ended[m₁.engine.policy.ended.length]? = some (.done v (.error f)) := by
  obtain ⟨hsub, -⟩ := h.grows (by simp) .policy
  have hj := JobQueue.getElem?_of_grows hsub hrun.2
  have hlt : m₁.engine.policy.ended.length < m.engine.policy.ended.length := by
    rw [hq]
    exact (List.getElem?_eq_some_iff.mp hj).1
  have he := List.getElem?_eq_getElem hlt
  have hmem := JobQueue.mem_outcomes hj he
  obtain ⟨v, hv | ⟨f, hf⟩⟩ := hc.ended _ hmem
  · exact absurd ⟨v, hv ▸ hmem⟩ hn
  · exact ⟨v, f, hf ▸ he⟩

theorem ReadsBetween.reaches {m₁ m₂ : Machine} (h : ReadsBetween m₀ m₁ m₂ m) :
    Reaches (· ≠ .restart) m₁ m := by
  obtain ⟨-, now, c, hs⟩ := h.reads
  refine (Reaches.step (.refl m₁) (by simp) hs).trans (h.after.mono fun a ha => ?_)
  rintro rfl
  exact ha

theorem Committed.of_same (hc : b.Committed)
    (ho : m.engine.policy.outcomes = b.engine.policy.outcomes)
    (hp : m.core.position.hasKiosk = true ↔ b.core.position.hasKiosk = true) : m.Committed where
  cursor := (hp.trans hc.cursor).trans (kioskCommitted_of_outcomes ho).symm
  ended := by
    rw [ho]
    exact hc.ended

theorem Committed.transition {e : Ending (Option LockMode) (Except Fault Reply) Fault}
    {C : Conduct → Prop} (hc : b.Committed) (hs : policy.Story b.core l m.core)
    (hend : Ending.Of C (b.opening .policy (.transition .kiosk)) l e) (hC : ∀ c, C c → c.Calm)
    (he : m.engine.policy.ended = b.engine.policy.ended ++ [e])
    (hv : m.engine.policy.value = e.value b.engine.policy.value)
    (hout : m.engine.policy.outcomes = b.engine.policy.outcomes ++ [(.transition .kiosk, e)]) :
    m.Committed := by
  have hmem (x) : (.transition .kiosk, x) ∈ m.engine.policy.outcomes ↔
      (.transition .kiosk, x) ∈ b.engine.policy.outcomes ∨ x = e := by
    simp [hout]
  obtain ⟨v, r, rfl, hends⟩ := concludes_of_ending hend hC
  obtain ⟨x, hx⟩ := TransitionEnd.exists_of_ends hs hends ⟨he, hv⟩
  rcases hx.position ⟨he, hv⟩ with ⟨n, rfl, hn, hp⟩ | ⟨f, rfl, hp⟩
  · obtain rfl := ProvisionState.next_kiosk hn
    refine ⟨iff_of_true (by rw [hp]; rfl) ⟨v, (hmem _).mpr (.inr rfl)⟩, fun x hx => ?_⟩
    rcases (hmem x).mp hx with hx | rfl
    · exact hc.ended x hx
    · exact ⟨v, .inl rfl⟩
  · refine ⟨?_, fun x hx => ?_⟩
    · rw [hp, hc.cursor]
      refine exists_congr fun w => ?_
      rw [hmem]
      exact ⟨.inl, fun h => h.resolve_right fun h => by cases h⟩
    · rcases (hmem x).mp hx with hx | rfl
      · exact hc.ended x hx
      · exact ⟨v, .inr ⟨f, rfl⟩⟩

theorem Committed.job {P : Action → Prop} (hc : b.Committed) (hb : b.Follows .usual)
    (ho : b.Ordered) (hw : Works .policy P b l m)
    (hP : ∀ c, P (.resume (.job .policy) c) → c.Calm) (hidle : m.Idle .policy) :
    m.Committed := by
  obtain ⟨j, hj, hs⟩ := hw.span hb
  obtain ⟨e, hend, he, hv⟩ := hs.exists_ending hidle
  have hout : m.engine.policy.outcomes = b.engine.policy.outcomes ++ [(j, e)] :=
    hs.outcomes ho hj he
  by_cases hk : j = .transition .kiosk
  · subst hk
    exact hc.transition hs.story hend hP he hv hout
  -- Any other job is no entry of this kind, and keeps the cursor on its side of the kiosk.
  · have hsame (x) : (.transition .kiosk, x) ∈ m.engine.policy.outcomes ↔
        (.transition .kiosk, x) ∈ b.engine.policy.outcomes := by
      rw [hout, List.mem_append, List.mem_singleton, Prod.mk.injEq]
      exact ⟨fun h => h.resolve_right fun h => hk h.1.symm, .inl⟩
    refine ⟨?_, fun x hx => hc.ended x ((hsame x).mp hx)⟩
    rw [hasKiosk_of_span hs hk, hc.cursor]
    exact exists_congr fun v => (hsame _).symm

theorem Fresh.committed (h : Fresh {} m) : m.Committed := by
  obtain ⟨he, hd⟩ := h.engine
  have hout : m.engine.policy.outcomes = [] := by
    rw [he]
    rfl
  have hcursor : m.engine.cursor = none := by
    rw [he]
  have hp : m.core.position = .unprovisioned := by
    simp [Machine.core, Core.position, hcursor, hd]
  refine ⟨iff_of_false (by simp [hp, ProvisionState.hasKiosk]) ?_, ?_⟩
  · rintro ⟨v, hv⟩
    rw [hout] at hv
    cases hv
  · rw [hout]
    exact fun e he => by cases he

theorem committed_or_running (hf : Fresh {} m₀) (h : Reaches Action.Orderly m₀ m) :
    (m.Idle .policy → m.Committed) ∧
      (m.core.position.hasKiosk = true → m.KioskCommitted ∨ m.KioskRunning) := by
  have hcases := h.boundary_or_works ⟨hf.idle .policy, hf.committed⟩ (fun m _ hr => hr.elim) ?_ ?_
  · rcases hcases with ⟨hidle, hc⟩ | ⟨hidle, b, l, hb, hbidle, hc, hw⟩
    · exact ⟨fun _ => hc, fun hp => .inl (hc.cursor.mp hp)⟩
    · refine ⟨fun h => absurd h hidle, fun hp => ?_⟩
      obtain ⟨j, hj, hs⟩ := hw.span (hb.usual (hf.follows _))
      obtain ⟨he, hnext⟩ := hs.next hidle hj
      by_cases hk : j = .transition .kiosk
      · subst hk
        exact .inr ⟨hidle, hnext⟩
      · rw [hasKiosk_of_span hs hk, hc.cursor] at hp
        exact .inl (hp.grows hw.reaches id)
  · intro m now a m' hm hidle hc _ ha hr hs
    obtain ⟨hsub, hend⟩ := step_grows hs hr .policy
    have hspares := beside_spares (hm.usual (hf.follows _)) hs ha hr
    have hended := (step_frame hs hr).ended ha
    refine hc.of_same (JobQueue.outcomes_same (hm.ordered hf.ordered .policy) hsub hended) ?_
    rw [hspares.1]
  · intro b l m hb hbidle hc hw hidle
    exact hc.job (hb.usual (hf.follows _)) (hb.ordered hf.ordered) hw (fun c h => h) hidle

theorem Works.reads_of_write {P : Action → Prop} {s : DeviceState} {u : Unit}
    (h : Works .requests P b l m) (hb : b.Follows .usual)
    (hmem : .request (.write (.device s)) (.ok u) ∈ l) :
    ∃ k m₁ m₂, Works .requests P b k m₁ ∧ m₁.Reads m₂ ∧ Reaches P m₂ m ∧
      m₁.core.position.hasKiosk = true := by
  obtain ⟨j, hj, hspan⟩ := h.span hb
  obtain ⟨q, hwalk⟩ := hspan.walk
  obtain ⟨p, k, hl, hp⟩ : ∃ p k, l = .request .cursor (.ok p) :: k ∧ p.hasKiosk = true := by
    rcases walk_bind hwalk with ⟨s, hk, -⟩ | ⟨d, k, e, hl, hk, he⟩
    · exact cursor_of_write hk hmem
    · obtain ⟨rfl, -⟩ := walk_done.mp he
      rw [List.append_nil] at hl
      rw [hl] at hmem ⊢
      exact cursor_of_write hk hmem
  have hread : .request .cursor (.ok p) ∈ l := by
    rw [hl]
    exact List.mem_cons_self
  obtain ⟨k, m₁, m₂, now, c, next, hk, hrun, ⟨m', hx⟩, hstep, hm₂⟩ := h.asked hread
  obtain rfl : p = m₁.core.position := (respond_core hx).1
  exact ⟨k, m₁, m₂, hk, ⟨⟨next, hrun⟩, now, c, hstep⟩, hm₂, hp⟩

theorem reads_of_write (hf : Fresh {} m₀) (h : Reaches Action.Orderly m₀ m) (ha : a.Orderly)
    (hs : m.step? now a = some m') (hd : m'.world.document.device ≠ m.world.document.device) :
    ∃ m₁ m₂, ReadsBetween m₀ m₁ m₂ m' ∧
      m₁.engine.requests.ended = m.engine.requests.ended ∧ m₁.core.position.hasKiosk = true := by
  have hr : a ≠ .restart := fun h => by rw [h] at ha; exact ha
  obtain ⟨c, s, u, rfl, hmem⟩ := exists_write (h.usual (hf.follows _)) hs hr hd
  obtain ⟨b, l, hb, hw, hsame⟩ := h.works_step (hf.idle .requests) (hf.follows _) ha rfl hs
  have hbu := hb.usual (hf.follows _)
  obtain ⟨k, m₁, m₂, hk, hreads, hm₂, hp⟩ := hw.reads_of_write hbu (List.mem_append_right l hmem)
  refine ⟨m₁, m₂, ⟨hb.trans hk.reaches, hreads, hm₂⟩, ?_, hp⟩
  obtain ⟨next, hrun⟩ := hreads.1
  have hrun₁ : (m₁.engine.queue .requests).running = some (.wait .cursor next) := hrun
  have hbusy₁ : ¬ m₁.Idle .requests := not_idle_of_running hrun₁
  -- Both states lie within the one job.
  exact (hk.ended hbu hbusy₁).trans hsame

theorem exists_reads (hf : Fresh {} m₀) (h : Reaches Action.Orderly m₀ m)
    (hd : m.world.document.device ≠ .undefined) :
    ∃ m₁ m₂, ReadsBetween m₀ m₁ m₂ m ∧ m₁.core.position.hasKiosk = true := by
  induction h with
  | refl =>
    rw [hf.engine.2] at hd
    exact absurd rfl hd
  | step h ha hs ih =>
    rename_i m m' now a
    by_cases hsame : m'.world.document.device = m.world.document.device
    · obtain ⟨m₁, m₂, hr, hp⟩ := ih (hsame ▸ hd)
      exact ⟨m₁, m₂, ⟨hr.before, hr.reads, hr.after.step ha hs⟩, hp⟩
    · obtain ⟨m₁, m₂, hr, -, hp⟩ := reads_of_write hf h ha hs hsame
      exact ⟨m₁, m₂, hr, hp⟩

/-- A request that stores a device state has read the cursor at a kiosk, which was committed or
whose transition was running. In a quiescent state, a device state is stored without a kiosk exactly
if no transition to a kiosk has succeeded; then a request has read the cursor during one that has
failed after that. -/
theorem kiosk_commitment (hf : Fresh {} m₀) (h : Reaches Action.Orderly m₀ m) :
    (∀ now a m', a.Orderly → m.step? now a = some m' →
      m'.world.document.device ≠ m.world.document.device →
        ∃ m₁ m₂, ReadsBetween m₀ m₁ m₂ m' ∧
          m₁.engine.requests.ended = m.engine.requests.ended ∧
            m₁.core.position.hasKiosk = true ∧ (m₁.KioskCommitted ∨ m₁.KioskRunning)) ∧
      (m.Quiescent →
        (¬ m.Provisioned ↔ m.world.document.device ≠ .undefined ∧ ¬ m.KioskCommitted) ∧
          (¬ m.Provisioned → ∃ m₁ m₂, ReadsBetween m₀ m₁ m₂ m ∧ m₁.KioskRunning ∧
            ∃ v f, m.engine.policy.ended[m₁.engine.policy.ended.length]? =
              some (.done v (.error f)))) := by
  refine ⟨fun now a m' ha hs hd => ?_, fun hq => ?_⟩
  · obtain ⟨m₁, m₂, hr, he, hp⟩ := reads_of_write hf h ha hs hd
    exact ⟨m₁, m₂, hr, he, hp, (committed_or_running hf hr.before).2 hp⟩
  have hc := (committed_or_running hf h).1 (hq.idle .policy)
  have hiff : ¬ m.Provisioned ↔ m.world.document.device ≠ .undefined ∧ ¬ m.KioskCommitted := by
    rw [Provisioned, hc.cursor, Classical.not_imp]
  refine ⟨hiff, fun hlaw => ?_⟩
  obtain ⟨hd, hn⟩ := hiff.mp hlaw
  obtain ⟨m₁, m₂, hr, hp⟩ := exists_reads hf h hd
  -- What had succeeded by the time of the read would still count, so a transition was running then.
  have hrun := ((committed_or_running hf hr.before).2 hp).resolve_left fun hc =>
    hn (hc.grows hr.reaches (by simp))
  obtain ⟨v, f, he⟩ := hc.failed hn hrun hr.reaches (hq.all_ended (h.ordered hf.ordered) .policy)
  exact ⟨m₁, m₂, hr, hrun, v, f, he⟩

def overlap : List Action :=
  [Action.call (.event .ready), .drop 0, .start .policy] ++ Action.goesOn .policy 6 ++
    [Action.callbackEnds 0 0 (.returned true)] ++ Action.goesOn .policy 2 ++
      [Action.call (.event .kiosk), .drop 1, .start .policy] ++ Action.goesOn .policy 4 ++
        [Action.call (.request .lock), .drop 2, .start .requests] ++ Action.goesOn .requests 3 ++
          [Action.callbackEnds 1 0 (.returned false)] ++ Action.goesOn .policy 3 ++
            [Action.callbackEnds 2 0 (.returned true)] ++ Action.goesOn .policy 4 ++
              [Action.start .policy] ++ Action.goesOn .policy 2 ++
                [Action.callbackEnds 3 0 (.returned true)] ++ Action.goesOn .policy 2 ++
                  Action.goesOn .requests 1 ++ [Action.start .policy] ++ Action.goesOn .policy 1 ++
                    Action.goesOn .requests 1

theorem exists_overlap :
    ∃ m, Reaches Action.Orderly (plain ["restrictions"]) m ∧ m.Quiescent ∧
      m.world.document.device = .locked ∧ m.core.position = .inProgress := by
  have hrun : ((plain ["restrictions"]).run? epoch overlap).any (fun m =>
      m.quiet && decide (m.world.document.device = .locked) &&
        decide (m.core.position = .inProgress)) = true := rfl
  obtain ⟨m, hm, hp⟩ := (Option.any_eq_true _ _).mp hrun
  simp only [Bool.and_eq_true, decide_eq_true_eq] at hp
  obtain ⟨⟨hq, hd⟩, hc⟩ := hp
  exact ⟨m, (Reaches.refl _).run (by decide) hm, quiescent_of_quiet hq, hd, hc⟩

theorem locked_without_kiosk :
    ∃ m₀ m, Fresh {} m₀ ∧ Reaches Action.Orderly m₀ m ∧ m.Quiescent ∧ ¬ m.Provisioned := by
  obtain ⟨m, hr, hq, hd, hp⟩ := exists_overlap
  refine ⟨_, m, plain_fresh _, hr, hq, fun h => ?_⟩
  have := h (by simp [hd])
  rw [hp] at this
  cases this

theorem kiosk_commitment_overlap :
    ∃ m m₁ m₂, m.Quiescent ∧ ReadsBetween (plain ["restrictions"]) m₁ m₂ m ∧ m₁.KioskRunning ∧
      ¬ m.KioskCommitted := by
  obtain ⟨m, hr, hq, hd, hp⟩ := exists_overlap
  obtain ⟨hiff, hfailed⟩ := (kiosk_commitment (plain_fresh _) hr).2 hq
  have hlaw : ¬ m.Provisioned := fun h => by
    have := h (by simp [hd])
    rw [hp] at this
    cases this
  obtain ⟨m₁, m₂, hreads, hrun, -⟩ := hfailed hlaw
  exact ⟨m, m₁, m₂, hq, hreads, hrun, (hiff.mp hlaw).2⟩

end Machine

end DeviceLock
