import DeviceLock.Proofs.Program.Footprint
import DeviceLock.Proofs.Program.Sequence

namespace DeviceLock

namespace Program

variable {α β : Type} {F : Footprint}

theorem within_bind {p : Program α} {f : α → Program β} (hp : p.Within F)
    (hf : ∀ a, (f a).Within F) : (p >>= f).Within F := by
  apply meets_bind.mpr
  apply hp.imp
  intro r _
  cases r with
  | error e => trivial
  | ok a => exact hf a

theorem within_attempt {p : Program α} (hp : p.Within F) : (attempt p).Within F :=
  meets_attempt.mpr hp

theorem within_discard {p : Program α} (hp : p.Within F) : (discard p).Within F :=
  meets_discard.mpr hp

theorem within_pure (a : α) : (pure a : Program α).Within F := trivial

theorem within_done (r : Except Fault α) : (done r).Within F := trivial

theorem only_within_of {c : Prop} [Decidable c] {p : Program Unit} (h : c → p.Within F) :
    (only c p).Within F := by
  unfold only
  split
  · rename_i hc
    exact h hc
  · trivial

theorem only_within {c : Prop} [Decidable c] {p : Program Unit} (h : p.Within F) :
    (only c p).Within F := only_within_of fun _ => h

theorem within_perform {a : Act} (h : F.acts a) : (perform a).Within F := ⟨h, fun _ => trivial⟩

theorem within_request {r : Request} (h : F.requests r) : (request r).Within F :=
  ⟨h, fun _ _ => trivial⟩

theorem cursor_within (h : F.requests .cursor) : cursor.Within F :=
  within_bind (within_request h) fun _ => within_done _

theorem load_within (h : F.requests .load) : load.Within F :=
  within_bind (within_request h) fun _ => within_done _

theorem write_within {c : Change} (h : F.requests (.write c)) : (write c).Within F :=
  within_bind (within_request h) fun _ => within_done _

theorem call_within {c : Call} {f : String → Fault} (h : F.requests (.call c)) :
    (call c f).Within F :=
  within_bind (within_request h) fun _ => within_done _

theorem await_within {j : Job} (hs : F.acts (.submit j)) (ha : ∀ t, F.requests (.await t)) :
    (await j).Within F :=
  within_bind (within_perform hs) fun t =>
    within_bind (within_request (ha t)) fun _ => within_done _

theorem pass_meets (p : ProvisionState) (d : DeviceState) :
    (pass p d).Meets .enforcing (FailsIn fun e => ∃ f, e = .enforcement f) := by
  unfold pass
  dsimp only
  split
  · trivial
  · refine ⟨trivial, fun n => ⟨trivial, fun ends _ => ?_⟩⟩
    apply meets_ofExcept.mpr
    cases (PolicyStep.resolve p d).verdict p d ends with
    | ok s => trivial
    | error f => exact ⟨f, rfl⟩

theorem present_meets (m : LockMode) : (present m).Meets .enforcing (· = .ok ()) := by
  unfold present
  split
  · simp only [ask, request, perform, meets_bind, meets_wait]
    refine ⟨trivial, fun b _ => ?_⟩
    cases b with
    | true => exact ⟨trivial, fun _ => rfl⟩
    | false => exact rfl
  · exact ⟨trivial, fun _ => ⟨rfl, fun _ _ => rfl⟩⟩

theorem enforce_meets (c : Bool) :
    (enforce c).Meets .enforcing
      (FailsIn fun e => (∃ f, e = .storage f) ∨ ∃ f, e = .enforcement f) := by
  refine failsIn_bind ⟨trivial, fun x _ => ?_⟩ fun p =>
    failsIn_bind ⟨trivial, fun x _ => ?_⟩ fun d =>
      meets_bind.mpr (meets_attempt.mpr ((pass_meets p d.device).imp fun r hr => ?_))
  · cases x with
    | ok p => trivial
    | error f => exact .inl ⟨f, rfl⟩
  · cases x with
    | ok d => trivial
    | error f => exact .inl ⟨f, rfl⟩
  · cases r with
    | error e => exact ⟨trivial, fun _ => .inr hr⟩
    | ok s =>
      refine ⟨trivial, fun _ => ?_⟩
      change (present _ >>= fun _ => pure _).Meets _ _
      apply meets_bind.mpr
      apply (present_meets _).imp
      rintro _ rfl
      trivial

theorem enforce_within (c : Bool) : (enforce c).Within .enforcing := (enforce_meets c).within

theorem enforce_within_policy (c : Bool) : (enforce c).Within Lane.policy.footprint := by
  apply (enforce_within c).mono
  · intro a ha
    cases a <;> trivial
  · intro r hr
    cases r with
    | call k => exact fun h => Call.noConfusion (h.symm.trans hr)
    | write _ => exact hr.elim
    | await _ => exact hr.elim
    | _ => trivial
  · exact fun _ _ _ => trivial

theorem enforce_within_escalating (c : Bool) : (enforce c).Within .escalating := by
  apply (enforce_within c).mono
  · exact fun _ h => h
  · intro r hr
    cases r with
    | call k => exact .inl hr
    | _ => exact hr
  · exact fun _ _ _ => trivial

theorem forceCritical_within (cause : String) : (forceCritical cause).Within .escalating :=
  within_bind (enforce_within_escalating true) fun _ =>
    within_bind (call_within (.inr (.inl ⟨_, rfl⟩))) fun _ =>
      within_bind (call_within (.inr (.inr (.inl ⟨_, rfl⟩)))) fun _ => within_pure _

theorem giveUp_within (config : RecoveryConfig) (cause : String) (e : Fault) :
    (giveUp config cause e).Within .escalating :=
  within_bind (within_perform trivial) fun _ =>
    within_bind (within_discard (within_request (.inr (.inr (.inr (.inl ⟨_, _, rfl⟩)))))) fun _ =>
      within_bind (within_discard (within_request (.inr (.inr (.inr (.inr ⟨_, rfl⟩)))))) fun _ =>
        within_pure _

theorem critical_within (config : RecoveryConfig) (cause : String) :
    (critical config cause).Within .escalating := by
  refine within_bind (within_attempt (forceCritical_within cause)) fun r => ?_
  cases r with
  | ok m => exact within_pure _
  | error e => exact within_bind (giveUp_within config cause e) fun _ => within_done _

theorem critical_within_policy (config : RecoveryConfig) (cause : String) :
    (critical config cause).Within Lane.policy.footprint := by
  apply (critical_within config cause).mono
  · intro a ha
    cases a <;> trivial
  · intro r hr
    cases r with
    | call k =>
      rintro rfl
      rcases hr with h | ⟨_, h⟩ | ⟨_, h⟩ | ⟨_, _, h⟩ | ⟨_, h⟩ <;> cases h
    | write _ => exact hr.elim
    | await _ => exact hr.elim
    | _ => trivial
  · exact fun _ _ _ => trivial

theorem onEntry_within (event : ProvisionEvent) (next : ProvisionState) :
    (onEntry event next).Within .entering := by
  have hready : (do write (.startTime (← perform .now))).Within .entering :=
    within_bind (within_perform (a := .now) rfl) fun t => write_within rfl
  rw [onEntry_eq]
  exact within_bind (only_within hready) fun _ =>
    within_bind (only_within (call_within ⟨_, rfl⟩)) fun _ => only_within (call_within ⟨_, rfl⟩)

theorem onEntry_advancing (event : ProvisionEvent) (next : ProvisionState) :
    (onEntry event next).Within .advancing := by
  apply (onEntry_within event next).mono
  · rintro _ rfl
    trivial
  · intro r hr
    cases r with
    | write c => exact .inr hr
    | call c => exact hr
    | _ => exact hr.elim
  · exact fun _ _ _ => trivial

theorem advance_advancing (event : ProvisionEvent) : (advance event).Within .advancing := by
  refine within_bind (cursor_within trivial) fun p => ?_
  cases p.next event with
  | none => exact within_bind (within_perform trivial) fun _ => within_done _
  | some n =>
    exact within_bind (write_within (.inl rfl)) fun _ =>
      within_bind (onEntry_advancing event n) fun _ =>
        within_bind (within_perform trivial) fun _ =>
          within_bind (within_perform trivial) fun _ => within_pure _

theorem advance_within (event : ProvisionEvent) :
    (advance event).Within Lane.policy.footprint := by
  apply (advance_advancing event).mono
  · intro a ha
    cases a <;> trivial
  · intro r hr
    cases r with
    | cursor => trivial
    | write c => exact hr
    | call c =>
      obtain ⟨k, rfl⟩ := hr
      simp [Lane.footprint]
    | _ => exact hr.elim
  · exact fun _ _ _ => trivial

theorem transition_within (config : RecoveryConfig) (enforced : Option LockMode)
    (event : ProvisionEvent) :
    (transition config enforced event).Within Lane.policy.footprint := by
  refine within_bind (within_attempt (advance_within event)) fun r => ?_
  rcases r with e | ⟨p, n⟩
  · exact within_pure _
  · refine within_bind (within_attempt (enforce_within_policy false)) fun r => ?_
    cases r with
    | ok m => exact within_pure _
    | error e =>
      refine within_bind (within_perform trivial) fun _ => ?_
      refine within_bind (within_attempt (critical_within_policy config e.message)) fun r => ?_
      cases r <;> exact within_pure _

section Moving

variable {Q : ProvisionState → Prop}

theorem enforce_moving (c : Bool) : (enforce c).Within (.moving Q) := by
  apply (enforce_within c).mono
  · intro a ha
    cases a <;> trivial
  · intro r hr
    cases r with
    | write _ => exact hr.elim
    | _ => trivial
  · exact fun _ _ _ => trivial

theorem critical_moving (config : RecoveryConfig) (cause : String) :
    (critical config cause).Within (.moving Q) := by
  apply (critical_within config cause).mono
  · intro a ha
    cases a <;> trivial
  · intro r hr
    cases r with
    | write _ => exact hr.elim
    | _ => trivial
  · exact fun _ _ _ => trivial

theorem onEntry_moving (event : ProvisionEvent) (next : ProvisionState) :
    (onEntry event next).Within (.moving Q) := by
  apply (onEntry_within event next).mono
  · rintro _ rfl
    trivial
  · intro r hr
    cases r with
    | write c => cases c <;> trivial
    | _ => trivial
  · exact fun _ _ _ => trivial

theorem advance_moving {event : ProvisionEvent}
    (hQ : ∀ p n, p.next event = some n → Q p → Q n) :
    (advance event).Meets (.moving Q) fun r => ∀ s, r = .ok s → Q s.1 := by
  change (cursor >>= _).Meets _ _
  refine meets_bind.mpr ⟨trivial, fun x hx => ?_⟩
  cases x with
  | error f => rintro s ⟨⟩
  | ok p =>
    have hp : Q p := hx
    apply then_ok.mpr
    cases hnext : p.next event with
    | none => exact ⟨trivial, fun _ => by rintro s ⟨⟩⟩
    | some n =>
      have hn : Q n := hQ p n hnext hp
      refine ⟨hn, fun y _ => ?_⟩
      cases y with
      | error f => rintro s ⟨⟩
      | ok u =>
        change (onEntry event n >>= _).Meets _ _
        refine meets_bind.mpr ((onEntry_moving event n).imp fun r _ => ?_)
        cases r with
        | error e => rintro s ⟨⟩
        | ok u =>
          refine ⟨hn, fun _ => ⟨trivial, fun _ => ?_⟩⟩
          rintro s ⟨⟩
          exact hp

theorem transition_moving {event : ProvisionEvent} (config : RecoveryConfig)
    (enforced : Option LockMode) (hQ : ∀ p n, p.next event = some n → Q p → Q n) :
    (transition config enforced event).Within (.moving Q) := by
  refine meets_bind.mpr (meets_attempt.mpr ((advance_moving hQ).imp fun r hr => ?_))
  rcases r with e | ⟨p, n⟩
  · exact within_pure _
  · refine within_bind (within_attempt (enforce_moving false)) fun r => ?_
    cases r with
    | ok m => exact within_pure _
    | error e =>
      refine within_bind (within_perform (a := .moveCursor p) (hr _ rfl)) fun _ => ?_
      refine within_bind (within_attempt (critical_moving config e.message)) fun r => ?_
      cases r <;> exact within_pure _

end Moving

theorem effective_within : effective.Within .measuring := by
  refine within_bind (cursor_within trivial) fun p => ?_
  split
  · exact within_bind (within_perform (a := .pseudo) rfl) fun _ => within_pure _
  · exact within_bind (load_within trivial) fun _ => within_pure _

theorem effective_within_requests : effective.Within Lane.requests.footprint := by
  apply effective_within.mono
  · rintro _ rfl
    trivial
  · intro r hr
    cases r with
    | cursor => trivial
    | load => trivial
    | _ => exact hr.elim
  · exact fun _ _ _ => trivial

theorem persist_within (request : DeviceRequest) (p : ProvisionState) (target : DeviceState) :
    (persist request p target).Within Lane.requests.footprint := by
  have hawait (j : Job) (h : Lane.requests.footprint.acts (.submit j)) :
      (discard (await j)).Within Lane.requests.footprint :=
    within_discard (await_within h fun _ => trivial)
  exact within_bind (write_within rfl) fun _ =>
    within_bind (hawait _ (.inl rfl)) fun _ =>
      within_bind (only_within (hawait _ (.inr (.inl rfl)))) fun _ =>
        within_bind (only_within (hawait _ (.inr (.inr rfl)))) fun _ => within_pure _

theorem carryOut_within (config : DeviceConfig) (request : DeviceRequest) :
    (carryOut config request).Within Lane.requests.footprint := by
  rw [carryOut_eq]
  refine within_bind effective_within_requests fun s => ?_
  split
  · exact within_done _
  · exact within_bind (within_perform trivial) fun _ => within_pure _
  · exact persist_within _ _ _

theorem sendReport_within (config : RecoveryConfig) (s : FinalizationState) :
    (sendReport config s).Within Lane.finalization.footprint := by
  unfold sendReport
  split
  · exact within_pure _
  · rename_i h
    obtain rfl : s = .unreported := Decidable.not_not.mp h
    refine within_bind (within_request (.inl rfl)) fun r => ?_
    cases r with
    | error m => exact within_bind (call_within (.inr ⟨_, rfl⟩)) fun _ => within_pure _
    | ok u =>
      have hw : (do
          write (.finalization .finalized)
          return FinalizationState.finalized).Within Lane.finalization.footprint :=
        within_bind (write_within ⟨.finalized, rfl, by simp⟩) fun _ => within_pure _
      exact hw

theorem startState_within (cached : Option FinalizationState) :
    (startState cached).Within Lane.finalization.footprint := by
  cases cached with
  | some s => exact within_pure _
  | none => exact within_bind (load_within trivial) fun _ => within_pure _

theorem proceed_meets (job : FinalizationJob) (current : FinalizationState) :
    (proceed job current).Meets F fun r => ∃ s, r = .ok s ∧ (s ≠ current → s ≠ .unfinalized) := by
  cases job <;> cases current <;> exact ⟨_, rfl, by simp⟩

theorem finalization_within (config : RecoveryConfig) (cached : Option FinalizationState)
    (job : FinalizationJob) :
    (Program.finalization config cached job).Within Lane.finalization.footprint := by
  rw [finalization_eq]
  refine within_bind (startState_within cached) fun current => ?_
  refine meets_bind.mpr ((proceed_meets job current).imp ?_)
  rintro _ ⟨s, rfl, hs⟩
  refine within_bind (only_within_of fun h => write_within ⟨s, rfl, hs h⟩) fun _ => ?_
  cases job with
  | read => exact within_pure _
  | cleared => exact sendReport_within config s
  | retry => exact sendReport_within config s

section Asking

variable {J : Job → Prop}

theorem setupDone_within : setupDone.Within (.asking J) := by
  refine within_bind (within_request trivial) fun b => ?_
  split
  · exact within_pure _
  · exact within_bind (load_within trivial) fun _ => within_pure _

theorem await_within_asking {j : Job} (hj : J j) : (await j).Within (.asking J) :=
  await_within hj fun _ => trivial

theorem raiseReady_within (hready : J (.policy (.transition .ready))) :
    raiseReady.Within (.asking J) :=
  within_bind (within_discard (await_within_asking hready)) fun _ => within_pure _

theorem reenforce_within (henforce : J (.policy .enforce)) : reenforce.Within (.asking J) :=
  within_bind (within_discard (await_within_asking henforce)) fun _ => within_pure _

theorem reconcile_within (hready : J (.policy (.transition .ready)))
    (henforce : J (.policy .enforce)) : reconcile.Within (.asking J) := by
  refine within_bind (cursor_within trivial) fun p => ?_
  split
  · refine within_bind setupDone_within fun b => ?_
    split
    · refine within_bind (load_within trivial) fun d => ?_
      split
      · exact raiseReady_within hready
      · exact reenforce_within henforce
    · exact reenforce_within henforce
  · exact reenforce_within henforce

theorem notifyReady_within (config : RecoveryConfig) (hready : J (.policy (.transition .ready))) :
    (notifyReady config).Within (.asking J) := by
  refine within_bind setupDone_within fun b => ?_
  split
  · exact raiseReady_within hready
  · exact within_bind (call_within ⟨_, rfl⟩) fun _ => within_pure _

theorem setupTimeout_within (hready : J (.policy (.transition .ready)))
    (henforce : J (.policy .enforce)) : setupTimeout.Within (.asking J) :=
  within_bind (write_within (.inl rfl)) fun _ => reconcile_within hready henforce

theorem status_within : status.Within (.asking J) :=
  within_bind (load_within trivial) fun _ =>
    within_bind (cursor_within trivial) fun _ =>
      within_bind (within_perform trivial) fun _ =>
        within_bind (within_perform trivial) fun _ => within_pure _

theorem isLocked_within : isLocked.Within (.asking J) := by
  refine within_bind (effective_within.mono ?_ ?_ fun _ _ _ => trivial) fun _ => within_pure _
  · rintro _ rfl
    trivial
  · intro r hr
    cases r with
    | cursor => trivial
    | load => trivial
    | _ => exact hr.elim

end Asking

end Program

open Program

theorem PolicyJob.program_within (config : EngineConfig) (enforced : Option LockMode)
    (job : PolicyJob) : (job.program config enforced).Within Lane.policy.footprint := by
  cases job with
  | enforce => exact within_bind (enforce_within_policy _) fun _ => within_pure _
  | critical cause => exact within_bind (critical_within_policy _ _) fun _ => within_pure _
  | mode =>
    cases enforced with
    | some m => exact within_pure _
    | none => exact within_bind (enforce_within_policy _) fun _ => within_pure _
  | invalidate => exact within_pure _
  | transition event => exact within_bind (transition_within _ _ _) fun _ => within_pure _

theorem PolicyJob.program_moving {Q : ProvisionState → Prop} {job : PolicyJob}
    (config : EngineConfig) (enforced : Option LockMode)
    (hQ : ∀ event, job = .transition event → ∀ p n, p.next event = some n → Q p → Q n) :
    (job.program config enforced).Within (.moving Q) := by
  cases job with
  | enforce => exact within_bind (enforce_moving _) fun _ => within_pure _
  | critical cause => exact within_bind (critical_moving _ _) fun _ => within_pure _
  | mode =>
    cases enforced with
    | some m => exact within_pure _
    | none => exact within_bind (enforce_moving _) fun _ => within_pure _
  | invalidate => exact within_pure _
  | transition event =>
    exact within_bind (transition_moving _ _ (hQ event rfl)) fun _ => within_pure _

theorem DeviceRequest.program_within (config : EngineConfig) (request : DeviceRequest) :
    (request.program config).Within Lane.requests.footprint :=
  within_bind (carryOut_within _ _) fun _ => within_pure _

theorem FinalizationJob.program_within (config : EngineConfig)
    (cached : Option FinalizationState) (job : FinalizationJob) :
    (job.program config cached).Within Lane.finalization.footprint :=
  within_bind (finalization_within _ _ _) fun _ => within_pure _

def Operation.jobs : Operation → List Job
  | event e => [.policy (.transition e)]
  | request r => [.request r]
  | enforce => [.policy .enforce]
  | critical cause => [.policy (.critical cause)]
  | mode => [.policy .mode]
  | invalidate => [.policy .invalidate]
  | finalization => [.finalization .read]
  | notifyCleared => [.finalization .cleared]
  | retryReport | alarm .finalizationReportRetry => [.finalization .retry]
  | notifyReady | ready => [.policy (.transition .ready)]
  | userUnlocked => [.policy .invalidate, .policy (.transition .ready), .policy .enforce]
  | setupCompleted | reconcile | setupTimeout | alarm .criticalEnforcementRetry
  | alarm .setupCompletionTimeout => [.policy (.transition .ready), .policy .enforce]
  | isLocked | deviceState | provisionState | document | status | schedule _ | deactivate => []

theorem Operation.cleared_mem_jobs {op : Operation} (h : .finalization .cleared ∈ op.jobs) :
    op = .notifyCleared := by
  cases op with
  | notifyCleared => rfl
  | alarm a => cases a <;> simp [jobs] at h
  | _ => simp [jobs] at h

theorem Operation.program_asking {J : Job → Prop} (config : EngineConfig) {op : Operation}
    (hJ : ∀ j ∈ op.jobs, J j) (hs : ∀ mode, op ≠ .schedule mode) (hd : op ≠ .deactivate) :
    (op.program config).Within (.asking J) := by
  cases op with
  | isLocked => exact within_bind isLocked_within fun _ => within_pure _
  | deviceState => exact within_bind (load_within trivial) fun _ => within_pure _
  | provisionState => exact within_bind (cursor_within trivial) fun _ => within_pure _
  | notifyReady => exact notifyReady_within _ (hJ _ (by simp [jobs]))
  | ready =>
    exact within_bind (write_within (.inr rfl)) fun _ =>
      notifyReady_within _ (hJ _ (by simp [jobs]))
  | userUnlocked =>
    exact within_bind (within_discard (await_within_asking (hJ _ (by simp [jobs])))) fun _ =>
      reconcile_within (hJ _ (by simp [jobs])) (hJ _ (by simp [jobs]))
  | setupCompleted => exact reconcile_within (hJ _ (by simp [jobs])) (hJ _ (by simp [jobs]))
  | reconcile => exact reconcile_within (hJ _ (by simp [jobs])) (hJ _ (by simp [jobs]))
  | setupTimeout => exact setupTimeout_within (hJ _ (by simp [jobs])) (hJ _ (by simp [jobs]))
  | alarm a =>
    cases a with
    | setupCompletionTimeout =>
      exact setupTimeout_within (hJ _ (by simp [jobs])) (hJ _ (by simp [jobs]))
    | criticalEnforcementRetry =>
      exact reconcile_within (hJ _ (by simp [jobs])) (hJ _ (by simp [jobs]))
    | finalizationReportRetry =>
      exact within_bind (within_discard (await_within_asking (hJ _ (by simp [jobs])))) fun _ =>
        within_pure _
  | document => exact within_bind (load_within trivial) fun _ => within_pure _
  | status => exact status_within
  | schedule mode => exact absurd rfl (hs mode)
  | deactivate => exact absurd rfl hd
  | _ => exact await_within_asking (hJ _ (by simp [jobs]))

theorem Operation.program_within {J : Job → Prop} (config : EngineConfig) (op : Operation)
    (hJ : ∀ j ∈ op.jobs, J j) : (op.program config).Within (.caller J) := by
  have hasking (hs : ∀ mode, op ≠ .schedule mode) (hd : op ≠ .deactivate) :
      (op.program config).Within (.caller J) := by
    apply (program_asking config hJ hs hd).mono
    · intro a ha
      cases a <;> first | exact ha | trivial
    · intro r hr
      cases r with
      | call c => exact .inr hr
      | _ => exact hr
    · exact fun _ _ _ => trivial
  cases op with
  | schedule mode => exact within_bind (within_perform trivial) fun _ => within_pure _
  | deactivate =>
    exact within_bind (within_perform trivial) fun _ =>
      within_bind (call_within (.inl rfl)) fun _ => within_pure _
  | _ => exact hasking (by simp) (by simp)

end DeviceLock
