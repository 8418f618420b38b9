import DeviceLock.Proofs.Document.RoundTrip
import DeviceLock.Proofs.Engine.Setting
import DeviceLock.Proofs.Program.Serial

namespace DeviceLock

open Program

structure Consequence where
  document : Document
  result : Except Fault Unit

namespace Document

variable (S : Setting)

def entered (event : ProvisionEvent) (next : ProvisionState) (d : Document) : Document :=
  { d with
    provision := next
    startTime := if event = .ready then some S.wall else d.startTime }

def raised (event : ProvisionEvent) (d : Document) : Consequence :=
  match d.provision.next event with
  | some next => ⟨d.entered S event next, .ok ()⟩
  | none => ⟨d, .error (.illegalTransition d.provision event)⟩

def setupOver (d : Document) : Bool := S.answer .setupComplete || d.setupTimedOut

def notified (d : Document) : Consequence :=
  if d.setupOver S then d.raised S .ready else ⟨d, .ok ()⟩

def reconciled (d : Document) : Consequence :=
  if d.provision = .unprovisioned ∧ d.setupOver S ∧ d.provisioningReady then d.raised S .ready
  else ⟨d, .ok ()⟩

end Document

def FinalizationJob.leaves : FinalizationJob → FinalizationState → FinalizationState
  | cleared, _ => .finalized
  | retry, .unreported => .finalized
  | read, s | retry, s => s

namespace DeviceRequest

def enrolled (S : Setting) (request : DeviceRequest) (d : Document) : Document :=
  if request ≠ .clear ∧ d.provision = .kioskProvisioned then d.entered S .success .succeeded else d

def persisted (S : Setting) (request : DeviceRequest) (target : DeviceState) (d : Document) :
    Document :=
  let stored := request.enrolled S { d with device := target }
  if target = .cleared then { stored with finalization := .finalized } else stored

def consequence (config : DeviceConfig) (S : Setting) (pseudo : DeviceState)
    (request : DeviceRequest) (d : Document) : Consequence :=
  let effective := if d.provision = .unprovisioned then pseudo else d.device
  match request.plan d.provision effective config.lenientClear with
  | .error r => ⟨d, .error (.refused r)⟩
  | .ok (.pseudo _) => ⟨d, .ok ()⟩
  | .ok (.persist target) => ⟨request.persisted S target d, .ok ()⟩

end DeviceRequest

def Operation.consequence (config : EngineConfig) (S : Setting) (pseudo : DeviceState)
    (d : Document) : Operation → Consequence
  | event e => d.raised S e
  | request r => r.consequence config.device S pseudo d
  | notifyReady => d.notified S
  | ready => Document.notified S { d with provisioningReady := true }
  | userUnlocked | setupCompleted | reconcile | alarm .criticalEnforcementRetry => d.reconciled S
  | setupTimeout | alarm .setupCompletionTimeout =>
    Document.reconciled S { d with setupTimedOut := true }
  | notifyCleared => ⟨{ d with finalization := .finalized }, .ok ()⟩
  | retryReport | alarm .finalizationReportRetry =>
    ⟨{ d with finalization := FinalizationJob.retry.leaves d.finalization }, .ok ()⟩
  | enforce | critical _ | mode | invalidate | finalization | isLocked | deviceState
  | provisionState | document | status | schedule _ | deactivate => ⟨d, .ok ()⟩

structure Bench.Keeps (s : Bench) (d : Document) : Prop where
  document : s.core.document = d
  cursor : ∀ p ∈ s.core.cursor, p = d.provision
  finalization : ∀ f ∈ s.value .finalization, f = d.finalization

namespace Bench.Keeps

variable {s : Bench} {d : Document}

theorem position (h : s.Keeps d) : s.core.position = d.provision := by
  unfold Core.position
  cases hc : s.core.cursor with
  | none => exact congrArg Document.provision h.document
  | some p => exact h.cursor p hc

theorem settle (lane : Lane) (h : s.Keeps d) (hl : .finalization ≠ lane)
    (r : Except Fault (lane.Value × Except Fault Reply)) : (s.settle lane r).Keeps d where
  document := by rw [settle_core, h.document]
  cursor := by simpa only [settle_core] using h.cursor
  finalization := by simpa only [settle_of_ne _ hl] using h.finalization

theorem read (h : s.Keeps d) :
    Keeps { s with core := { s.core with cursor := some s.core.position } } d :=
  ⟨h.document, by rintro p ⟨⟩; exact h.position, h.finalization⟩

theorem write {c : Change} (h : s.Keeps d) (hp : (c.apply d).provision = d.provision)
    (hf : (c.apply d).finalization = d.finalization) :
    Keeps { s with core := { s.core with document := c.apply s.core.document } } (c.apply d) :=
  ⟨congrArg c.apply h.document, by rw [hp]; exact h.cursor, by rw [hf]; exact h.finalization⟩

end Bench.Keeps

def Consequence.Shows (k : Consequence) {α : Type} (r : Except Fault α) (s : Bench) : Prop :=
  s.Keeps k.document ∧ r.map (fun _ => ()) = k.result

namespace Program

variable {S : Setting} {s : Bench} {d : Document}

theorem enforcing_direct {α : Type} {p : Program α} (h : p.Within .enforcing) :
    p.Within .direct :=
  direct_of_within h (fun _ => id) (fun _ => id) fun _ _ => trivial

theorem pass_leads (p : ProvisionState) (device : DeviceState) :
    (pass p device).Leads (Deed.Expected S) s fun r s' => (∃ step, r = .ok step) ∧ s' = s := by
  unfold pass
  dsimp only
  split
  · exact leads_pure ⟨⟨_, rfl⟩, rfl⟩
  · refine leads_perform (fun _ => trivial) fun n _ _ =>
      leads_request (fun _ => trivial) fun ends hends _ => leads_done ?_
    have hverdict := PolicyStep.verdict_eq_ok_iff (p := p) (d := device)
      (s := PolicyStep.resolve p device) |>.mpr hends
    rw [hverdict]
    exact ⟨⟨_, rfl⟩, rfl⟩

theorem present_leads (mode : LockMode) :
    (present mode).Leads (Deed.Expected S) s fun r s' => r = .ok () ∧ s' = s := by
  unfold present
  split
  · refine leads_ask ?_
    split
    · exact leads_perform (fun _ => trivial) fun _ _ _ => leads_pure ⟨rfl, rfl⟩
    · exact leads_pure ⟨rfl, rfl⟩
  · refine leads_perform (fun _ => trivial) fun _ _ _ => ?_
    exact leads_request (fun _ => trivial) fun _ _ _ => leads_pure ⟨rfl, rfl⟩

theorem enforce_leads (c : Bool) :
    (enforce c).Leads (Deed.Expected S) s fun r s' => (∃ mode, r = .ok mode) ∧
      s' = { s with core := { s.core with cursor := some s.core.position } } := by
  refine leads_cursor (leads_load ?_)
  refine leads_attempt_bind (enforcing_direct (pass_meets _ _).within) ?_
  refine (pass_leads _ _).imp ?_
  rintro _ _ ⟨⟨step, rfl⟩, rfl⟩
  refine leads_perform (fun _ => trivial) fun _ _ _ => ?_
  refine leads_bind (enforcing_direct (present_meets _).within) ((present_leads _).imp ?_)
  rintro _ _ ⟨rfl, rfl⟩
  exact ⟨fun _ _ => leads_pure ⟨⟨_, rfl⟩, rfl⟩, by simp⟩

theorem critical_direct (config : RecoveryConfig) (cause : String) :
    (critical config cause).Within .direct :=
  direct_of_within (critical_within config cause) (fun _ => id) (fun _ => id) fun _ _ => trivial

theorem critical_leads (config : RecoveryConfig) (cause : String) :
    (critical config cause).Leads (Deed.Expected S) s fun r s' => (∃ mode, r = .ok mode) ∧
      s' = { s with core := { s.core with cursor := some s.core.position } } := by
  have hforce : (forceCritical cause).Leads (Deed.Expected S) s fun r s' =>
      (∃ mode, r = .ok mode) ∧
        s' = { s with core := { s.core with cursor := some s.core.position } } := by
    refine leads_bind (enforcing_direct (enforce_within true)) ((enforce_leads true).imp ?_)
    rintro _ _ ⟨⟨mode, rfl⟩, rfl⟩
    refine ⟨fun mode _ => ?_, by simp⟩
    exact leads_call (leads_call (leads_pure ⟨⟨mode, rfl⟩, rfl⟩))
  have hdirect : (forceCritical cause).Within .direct :=
    direct_of_within (forceCritical_within cause) (fun _ => id) (fun _ => id) fun _ _ => trivial
  refine leads_attempt_bind hdirect (hforce.imp ?_)
  rintro _ _ ⟨⟨mode, rfl⟩, rfl⟩
  exact leads_pure ⟨⟨mode, rfl⟩, rfl⟩

theorem leads_only {α : Type} {c : Prop} [Decidable c] {p : Program Unit} {f : Unit → Program α}
    {D : Deed → Prop} {K : Except Fault α → Bench → Prop} (ht : c → (p >>= f).Leads D s K)
    (hf : ¬ c → (f ()).Leads D s K) : (only c p >>= f).Leads D s K := by
  rw [only_bind]
  split
  · exact ht ‹_›
  · exact hf ‹_›

theorem onEntry_leads (event : ProvisionEvent) (next : ProvisionState) (hd : d.provision = next)
    (hdocument : s.core.document = d) :
    (onEntry event next).Leads (Deed.Expected S) s fun r s' => r = .ok () ∧
      s' = { s with core := { s.core with document := d.entered S event next } } := by
  have hcalls (s : Bench) : (do
      only (next = .inProgress) (platform .enableSetup)
      only (event = .success) (platform .notifySucceeded) : Program Unit).Leads (Deed.Expected S) s
        fun r s' => r = .ok () ∧ s' = s := by
    have hlast : (only (event = .success) (platform .notifySucceeded)).Leads (Deed.Expected S) s
        fun r s' => r = .ok () ∧ s' = s := by
      rw [← bind_pure (only _ _)]
      exact leads_only (fun _ => leads_call (leads_pure ⟨rfl, rfl⟩)) fun _ => leads_pure ⟨rfl, rfl⟩
    exact leads_only (fun _ => leads_call hlast) fun _ => hlast
  rw [onEntry_eq]
  refine leads_only (fun hready => ?_) fun hready => ?_
  · rw [bind_assoc]
    refine leads_perform (fun _ => trivial) fun t ht _ => ?_
    obtain rfl : t = S.wall := ht
    refine leads_write ((hcalls _).imp ?_)
    rintro _ _ ⟨rfl, rfl⟩
    refine ⟨rfl, ?_⟩
    subst hd hdocument
    simp [Document.entered, hready, Change.apply, Bench.after, Deed.effect]
  · refine (hcalls s).imp ?_
    rintro _ _ ⟨rfl, rfl⟩
    refine ⟨rfl, ?_⟩
    subst hd hdocument
    simp [Document.entered, hready]

theorem advance_leads (event : ProvisionEvent) (h : s.Keeps d) :
    (advance event).Leads (Deed.Expected S) s (d.raised S event).Shows := by
  refine leads_cursor ?_
  rw [h.position, Document.raised]
  cases hnext : d.provision.next event with
  | none =>
    refine leads_perform (fun _ => trivial) fun _ _ _ => leads_done ?_
    exact ⟨h.position ▸ h.read, rfl⟩
  | some next =>
    refine leads_write (leads_bind ?_ ?_)
    · exact direct_of_within (onEntry_within event next) (fun _ h => by cases h) (fun _ => id)
        fun _ _ => trivial
    refine (onEntry_leads event next rfl rfl).imp ?_
    rintro _ _ ⟨rfl, rfl⟩
    refine ⟨fun _ _ => ?_, by simp⟩
    refine leads_perform (fun _ => trivial) fun _ _ _ => ?_
    refine leads_perform (fun _ => trivial) fun _ _ _ => leads_pure ⟨?_, rfl⟩
    obtain ⟨rfl, -, hfinalization⟩ := h
    exact ⟨rfl, by rintro p ⟨⟩; rfl, hfinalization⟩

theorem transition_leads (config : RecoveryConfig) (value : Option LockMode)
    (event : ProvisionEvent) (h : s.Keeps d) :
    (transition config value event).Leads (Deed.Expected S) s fun r s' =>
      ∃ v x, r = .ok (v, x) ∧ (d.raised S event).Shows x s' := by
  have hdirect : (advance event).Within .direct :=
    direct_of_within (advance_advancing event) (fun _ => id) (fun _ => id) fun _ _ => trivial
  refine leads_attempt_bind hdirect ((advance_leads event h).imp ?_)
  rintro r s₁ ⟨hkeeps, hr⟩
  rcases r with e | ⟨previous, next⟩
  · exact leads_pure ⟨_, _, rfl, hkeeps, hr⟩
  · refine leads_attempt_bind (enforcing_direct (enforce_within false))
      ((enforce_leads false).imp ?_)
    rintro _ _ ⟨⟨mode, rfl⟩, rfl⟩
    exact leads_pure ⟨_, _, rfl, hkeeps.read, hr⟩

end Program

section Jobs

variable {S : Setting} {s : Bench} {d : Document}

def PolicyJob.consequence (S : Setting) (d : Document) : PolicyJob → Consequence
  | transition event => d.raised S event
  | enforce | critical _ | mode | invalidate => ⟨d, .ok ()⟩

theorem PolicyJob.program_leads (config : EngineConfig) (value : Option LockMode)
    (job : PolicyJob) (h : s.Keeps d) :
    (job.program config value).Leads (Deed.Expected S) s fun r s' =>
      (job.consequence S d).Shows (r.bind Prod.snd) s' := by
  have hrecorded {p : Program LockMode} (hp : p.Within .direct)
      (hleads : p.Leads (Deed.Expected S) s fun r s' => (∃ mode, r = .ok mode) ∧
        s' = { s with core := { s.core with cursor := some s.core.position } }) :
      (p >>= recorded).Leads (Deed.Expected S) s fun r s' =>
        Consequence.Shows ⟨d, .ok ()⟩ (r.bind Prod.snd) s' := by
    refine leads_bind hp (hleads.imp ?_)
    rintro _ _ ⟨⟨mode, rfl⟩, rfl⟩
    exact ⟨fun _ _ => leads_pure ⟨h.read, rfl⟩, by simp⟩
  have henforced := hrecorded (enforcing_direct (enforce_within false)) (enforce_leads false)
  cases job with
  | enforce => exact henforced
  | critical cause => exact hrecorded (critical_direct _ cause) (critical_leads _ cause)
  | mode =>
    cases value with
    | none => exact henforced
    | some mode => exact leads_pure ⟨h, rfl⟩
  | invalidate => exact leads_pure ⟨h, rfl⟩
  | transition event =>
    have hdirect : (Program.transition config.recovery value event).Within .direct :=
      direct_of_within (transition_within _ value event) (fun _ => id) (fun _ => id)
        fun _ _ => trivial
    refine leads_bind hdirect ((transition_leads config.recovery value event h).imp ?_)
    rintro _ s₁ ⟨v, x, rfl, hkeeps, hx⟩
    refine ⟨?_, by simp⟩
    rintro _ ⟨⟩
    refine leads_pure ⟨hkeeps, ?_⟩
    cases x <;> exact hx

theorem policy_leads (job : PolicyJob) (h : s.Keeps d) :
    (await (.policy job)).Leads (Deed.Expected S) s (job.consequence S d).Shows := by
  refine leads_await .policy job
    ((job.program_leads s.config (s.value .policy) h).imp ?_)
  rintro r s₁ ⟨hkeeps, hr⟩
  exact ⟨hkeeps.settle .policy (by decide) r, hr⟩

theorem sendReport_leads (config : RecoveryConfig) {state : FinalizationState}
    (hd : s.core.document.finalization = state) :
    (sendReport config state).Leads (Deed.Expected S) s fun r s' =>
      r = .ok (FinalizationJob.retry.leaves state) ∧
        s' = { s with core := { s.core with document :=
          (Change.finalization (FinalizationJob.retry.leaves state)).apply s.core.document } } := by
  unfold sendReport
  split
  · have hsame : FinalizationJob.retry.leaves state = state := by
      cases state <;> first | rfl | contradiction
    rw [hsame]
    subst hd
    exact leads_pure ⟨rfl, rfl⟩
  · rename_i hstate
    rw [Decidable.not_not.mp hstate]
    refine leads_request (fun _ => trivial) fun x hx _ => ?_
    obtain rfl : x = .ok () := hx
    exact leads_write (leads_pure ⟨rfl, rfl⟩)

theorem finalization_leads (config : RecoveryConfig) (job : FinalizationJob)
    {state : FinalizationState} (hd : s.core.document.finalization = state) :
    (Program.finalization config (some state) job).Leads (Deed.Expected S) s fun r s' =>
      r = .ok (job.leaves state) ∧
        s' = { s with core := { s.core with document :=
          (Change.finalization (job.leaves state)).apply s.core.document } } := by
  cases job with
  | read =>
    rw [finalization_read]
    subst hd
    exact leads_pure ⟨rfl, rfl⟩
  | retry =>
    rw [finalization_retry]
    exact sendReport_leads config hd
  | cleared =>
    rw [finalization_cleared]
    refine leads_only (fun hstate => leads_write ?_) fun hstate => ?_
    · subst hstate
      exact sendReport_leads config rfl
    · cases state with
      | unfinalized => exact absurd rfl hstate
      | unreported => exact sendReport_leads config hd
      | finalized => exact sendReport_leads config hd

theorem finalization_job_leads (job : FinalizationJob) (h : s.Keeps d) :
    (await (.finalization job)).Leads (Deed.Expected S) s
      (Consequence.Shows ⟨{ d with finalization := job.leaves d.finalization }, .ok ()⟩) := by
  have hcached : (job.program s.config (some d.finalization)).Leads (Deed.Expected S) s
      fun r s' => Consequence.Shows ⟨{ d with finalization := job.leaves d.finalization }, .ok ()⟩
        (r.bind Prod.snd) (s'.settle .finalization r) := by
    have hdirect : (Program.finalization s.config.recovery (some d.finalization) job).Within
        .direct :=
      direct_of_within (finalization_within _ _ job) (fun _ => id) (fun _ => id) fun _ _ => trivial
    refine leads_bind hdirect
      ((finalization_leads _ job (congrArg Document.finalization h.document)).imp ?_)
    rintro _ _ ⟨rfl, rfl⟩
    refine ⟨?_, by simp⟩
    rintro _ ⟨⟩
    refine leads_pure ⟨⟨?_, h.cursor, ?_⟩, rfl⟩
    · exact congrArg (Change.finalization _).apply h.document
    · rintro f hf
      rw [Bench.settle_ok] at hf
      cases hf
      rfl
  refine leads_await .finalization job ?_
  change (job.program s.config (s.value .finalization)).Leads _ _ _
  cases hvalue : s.value .finalization with
  | none =>
    unfold FinalizationJob.program
    rw [finalization_none, bind_assoc]
    refine leads_load ?_
    rw [h.document]
    exact hcached
  | some f =>
    obtain rfl : f = d.finalization := h.finalization f hvalue
    exact hcached

theorem leads_succeeded {α : Type} {j : Job} {k : Document} {f : Unit → Program α}
    {K : Except Fault α → Bench → Prop}
    (h : (await j).Leads (Deed.Expected S) s (Consequence.Shows ⟨k, .ok ()⟩))
    (hf : ∀ s', s'.Keeps k → (f ()).Leads (Deed.Expected S) s' K) :
    (discard (await j) >>= f).Leads (Deed.Expected S) s K := by
  rw [discard_bind]
  refine leads_await_bind (h.imp ?_)
  rintro r s₁ ⟨hkeeps, hr⟩
  refine ⟨fun _ _ => hf s₁ hkeeps, ?_⟩
  rintro e rfl
  cases hr

theorem leads_discarded {α : Type} {j : Job} {k : Consequence} (y : α)
    (h : (await j).Leads (Deed.Expected S) s k.Shows) :
    (discard (await j) >>= fun _ => pure y).Leads (Deed.Expected S) s k.Shows := by
  rw [discard_bind]
  refine leads_await_bind (h.imp ?_)
  rintro r s₁ ⟨hkeeps, hr⟩
  refine ⟨?_, ?_⟩
  · rintro a rfl
    exact leads_pure ⟨hkeeps, hr⟩
  · rintro e rfl
    exact ⟨hkeeps, hr⟩

theorem persist_leads {request : DeviceRequest} {target : DeviceState} (h : s.Keeps d) :
    (persist request d.provision target).Leads (Deed.Expected S) s
      (Consequence.Shows ⟨request.persisted S target d, .ok ()⟩) := by
  unfold DeviceRequest.persisted
  have hlast {d : Document} {s : Bench} (h : s.Keeps d) :
      (only (target = .cleared) (discard (await (.finalization .cleared))) >>=
        fun _ => pure target).Leads (Deed.Expected S) s (Consequence.Shows
          ⟨if target = .cleared then { d with finalization := .finalized } else d, .ok ()⟩) := by
    refine leads_only (fun hc => ?_) fun hc => ?_
    · rw [if_pos hc]
      exact leads_discarded target (finalization_job_leads .cleared h)
    · rw [if_neg hc]
      exact leads_pure ⟨h, rfl⟩
  generalize hd : { d with device := target } = stored
  have hprovision : stored.provision = d.provision := by rw [← hd]
  have hstored : Bench.Keeps
      { s with core := { s.core with
        document := (Change.device target).apply s.core.document } } stored :=
    hd ▸ h.write (c := .device target) rfl rfl
  refine leads_write (leads_succeeded (policy_leads .enforce hstored) fun s₁ h₁ => ?_)
  refine leads_only (fun hc => ?_) fun hc => ?_
  · have hraised : stored.raised S .success = ⟨request.enrolled S stored, .ok ()⟩ := by
      rw [Document.raised, DeviceRequest.enrolled, hprovision, if_pos hc, hc.2]
      rfl
    exact leads_succeeded (hraised ▸ policy_leads (.transition .success) h₁) fun _ => hlast
  · have henrolled : request.enrolled S stored = stored := if_neg (hprovision ▸ hc)
    exact hlast (henrolled.symm ▸ h₁)

theorem effective_leads (h : s.Keeps d) :
    effective.Leads (Deed.Expected S) s fun r s' => s'.Keeps d ∧
      r = .ok (d.provision, if d.provision = .unprovisioned then s.core.pseudo else d.device) := by
  refine leads_cursor ?_
  rw [h.position]
  split
  · refine leads_perform (fun _ => trivial) fun x _ hx => ?_
    obtain rfl : x = s.core.pseudo := hx
    exact leads_pure ⟨h.position ▸ h.read, rfl⟩
  · refine leads_load (leads_pure ⟨h.position ▸ h.read, ?_⟩)
    simp only [h.document]

theorem carryOut_leads (config : DeviceConfig) (request : DeviceRequest) (h : s.Keeps d) :
    (carryOut config request).Leads (Deed.Expected S) s
      (request.consequence config S s.core.pseudo d).Shows := by
  rw [carryOut_eq]
  refine leads_bind effective_direct ((effective_leads h).imp ?_)
  rintro _ s₁ ⟨hkeeps, rfl⟩
  refine ⟨?_, by simp⟩
  rintro _ ⟨⟩
  simp only [DeviceRequest.consequence]
  rcases request.plan d.provision (if d.provision = .unprovisioned then s.core.pseudo
    else d.device) config.lenientClear with r | target | target
  · exact leads_done ⟨hkeeps, rfl⟩
  · refine leads_perform (fun _ => trivial) fun _ _ _ => leads_pure ⟨?_, rfl⟩
    exact ⟨hkeeps.document, hkeeps.cursor, hkeeps.finalization⟩
  · exact persist_leads hkeeps

theorem request_leads (request : DeviceRequest) (h : s.Keeps d) :
    (await (.request request)).Leads (Deed.Expected S) s
      (request.consequence s.config.device S s.core.pseudo d).Shows := by
  refine leads_await .requests request ?_
  intro l r s' hl hx
  obtain ⟨y, hy, hr⟩ := DeviceRequest.ends_program hl
  obtain ⟨hkeeps, hresult⟩ := carryOut_leads s.config.device request h l y s' hy hx
  refine ⟨hkeeps.settle .requests (by decide) r, ?_⟩
  rw [hr, ← hresult]
  cases y <;> rfl

end Jobs

section Operations

variable {S : Setting} {s : Bench} {d : Document}

theorem raiseReady_leads (h : s.Keeps d) :
    raiseReady.Leads (Deed.Expected S) s (d.raised S .ready).Shows :=
  leads_discarded _ (policy_leads (.transition .ready) h)

theorem reenforce_leads (h : s.Keeps d) :
    reenforce.Leads (Deed.Expected S) s (Consequence.Shows ⟨d, .ok ()⟩) :=
  leads_discarded _ (policy_leads .enforce h)

theorem setupDone_leads (h : s.Keeps d) :
    setupDone.Leads (Deed.Expected S) s fun r s' => r = .ok (d.setupOver S) ∧ s'.Keeps d := by
  refine leads_ask ?_
  unfold Document.setupOver
  split
  · rename_i hanswer
    exact leads_pure ⟨by simp [hanswer], h⟩
  · rename_i hanswer
    refine leads_load (leads_pure ⟨?_, h⟩)
    simp [hanswer, h.document]

theorem reconcile_leads (h : s.Keeps d) :
    Program.reconcile.Leads (Deed.Expected S) s (d.reconciled S).Shows := by
  refine leads_cursor ?_
  rw [h.position]
  unfold Document.reconciled
  have hread := h.position ▸ h.read
  split
  · rename_i hp
    refine leads_bind setupDone_direct ((setupDone_leads hread).imp ?_)
    rintro _ s₁ ⟨rfl, h₁⟩
    refine ⟨?_, by simp⟩
    rintro _ ⟨⟩
    split
    · rename_i hover
      refine leads_load ?_
      rw [h₁.document]
      split
      · rename_i hready
        rw [if_pos ⟨hp, hover, hready⟩]
        exact raiseReady_leads h₁
      · rename_i hready
        rw [if_neg fun hall => hready hall.2.2]
        exact reenforce_leads h₁
    · rename_i hover
      rw [if_neg fun hall => hover hall.2.1]
      exact reenforce_leads h₁
  · rename_i hp
    rw [if_neg fun hall => hp hall.1]
    exact reenforce_leads hread

theorem notifyReady_leads (config : RecoveryConfig) (h : s.Keeps d) :
    (Program.notifyReady config).Leads (Deed.Expected S) s (d.notified S).Shows := by
  refine leads_bind setupDone_direct ((setupDone_leads h).imp ?_)
  rintro _ s₁ ⟨rfl, h₁⟩
  refine ⟨?_, by simp⟩
  rintro _ ⟨⟩
  unfold Document.notified
  split
  · exact raiseReady_leads h₁
  · exact leads_call (leads_pure ⟨h₁, rfl⟩)

theorem setupTimeout_leads (h : s.Keeps d) :
    Program.setupTimeout.Leads (Deed.Expected S) s
      (Document.reconciled S { d with setupTimedOut := true }).Shows :=
  leads_write (reconcile_leads (h.write (c := .setupTimedOut true) rfl rfl))

theorem status_leads (h : s.Keeps d) :
    Program.status.Leads (Deed.Expected S) s fun r s' => s'.Keeps d ∧
      ∃ x, r = .ok (.status x) ∧ x.provision = d.provision ∧ x.persisted = d := by
  refine leads_load (leads_cursor ?_)
  refine leads_perform (fun _ => trivial) fun _ _ _ => ?_
  refine leads_perform (fun _ => trivial) fun _ _ _ => ?_
  exact leads_pure ⟨h.read, _, rfl, h.position, h.document⟩

theorem Operation.leads_consequence (op : Operation) (h : s.Keeps d) :
    (op.program s.config).Leads (Deed.Expected S) s
      (op.consequence s.config S s.core.pseudo d).Shows := by
  cases op with
  | event e => exact policy_leads (.transition e) h
  | request r => exact request_leads r h
  | enforce => exact policy_leads .enforce h
  | critical cause => exact policy_leads (.critical cause) h
  | mode => exact policy_leads .mode h
  | invalidate => exact policy_leads .invalidate h
  | finalization => exact finalization_job_leads .read h
  | notifyCleared => exact finalization_job_leads .cleared h
  | retryReport => exact finalization_job_leads .retry h
  | isLocked =>
    change ((effective >>= fun _ => pure _) >>= fun b => pure (Reply.flag b)).Leads _ _ _
    rw [bind_assoc]
    refine leads_bind effective_direct ((effective_leads h).imp ?_)
    rintro _ s₁ ⟨hkeeps, rfl⟩
    exact ⟨fun _ _ => leads_pure ⟨hkeeps, rfl⟩, by simp⟩
  | deviceState => exact leads_load (leads_pure ⟨h, rfl⟩)
  | provisionState => exact leads_cursor (leads_pure ⟨h.read, rfl⟩)
  | notifyReady => exact notifyReady_leads _ h
  | ready =>
    exact leads_write (notifyReady_leads _ (h.write (c := .provisioningReady true) rfl rfl))
  | userUnlocked =>
    exact leads_succeeded (policy_leads .invalidate h) fun _ h₁ => reconcile_leads h₁
  | setupCompleted => exact reconcile_leads h
  | setupTimeout => exact setupTimeout_leads h
  | reconcile => exact reconcile_leads h
  | alarm a =>
    cases a with
    | setupCompletionTimeout => exact setupTimeout_leads h
    | criticalEnforcementRetry => exact reconcile_leads h
    | finalizationReportRetry => exact leads_discarded _ (finalization_job_leads .retry h)
  | document => exact leads_load (leads_pure ⟨h, rfl⟩)
  | status =>
    refine (status_leads h).imp ?_
    rintro _ _ ⟨hkeeps, x, rfl, -⟩
    exact ⟨hkeeps, rfl⟩
  | schedule mode => exact leads_perform (fun _ => trivial) fun _ _ _ => leads_pure ⟨h, rfl⟩
  | deactivate =>
    exact leads_perform (fun _ => trivial) fun _ _ _ => leads_call (leads_pure ⟨h, rfl⟩)

end Operations

section Stored

variable {S : Setting} {d : Document} {config : EngineConfig} {p q : DeviceState}

namespace Document.Regular

theorem entered (h : d.Regular) (hS : S.wall.Regular) (event : ProvisionEvent)
    (next : ProvisionState) : (d.entered S event next).Regular := by
  intro t ht
  simp only [Document.entered] at ht
  split at ht
  · obtain rfl := Option.some.inj ht
    exact hS
  · exact h t ht

theorem raised (h : d.Regular) (hS : S.wall.Regular) (event : ProvisionEvent) :
    (d.raised S event).document.Regular := by
  unfold Document.raised
  split
  · exact h.entered hS event _
  · exact h

theorem notified (h : d.Regular) (hS : S.wall.Regular) : (d.notified S).document.Regular := by
  unfold Document.notified
  split
  · exact h.raised hS .ready
  · exact h

theorem reconciled (h : d.Regular) (hS : S.wall.Regular) :
    (d.reconciled S).document.Regular := by
  unfold Document.reconciled
  split
  · exact h.raised hS .ready
  · exact h

theorem persisted (h : d.Regular) (hS : S.wall.Regular) (request : DeviceRequest)
    (target : DeviceState) : (request.persisted S target d).Regular := by
  have henrolled : (request.enrolled S { d with device := target }).Regular := by
    unfold DeviceRequest.enrolled
    split
    · exact entered (d := { d with device := target }) h hS .success .succeeded
    · exact h
  unfold DeviceRequest.persisted
  dsimp only
  split
  · exact henrolled
  · exact henrolled

end Document.Regular

theorem Operation.regular_consequence (op : Operation) (h : d.Regular) (hS : S.wall.Regular) :
    (op.consequence config S p d).document.Regular := by
  cases op with
  | event e => exact h.raised hS e
  | request r =>
    simp only [consequence, DeviceRequest.consequence]
    split
    · exact h
    · exact h
    · exact h.persisted hS r _
  | notifyReady => exact h.notified hS
  | ready => exact Document.Regular.notified (d := { d with provisioningReady := true }) h hS
  | userUnlocked => exact h.reconciled hS
  | setupCompleted => exact h.reconciled hS
  | reconcile => exact h.reconciled hS
  | setupTimeout => exact Document.Regular.reconciled (d := { d with setupTimedOut := true }) h hS
  | alarm a =>
    cases a with
    | setupCompletionTimeout =>
      exact Document.Regular.reconciled (d := { d with setupTimedOut := true }) h hS
    | criticalEnforcementRetry => exact h.reconciled hS
    | finalizationReportRetry => exact h
  | _ => exact h

def Operation.Volatile (d : Document) (op : Operation) : Prop :=
  ∃ r, op = .request r ∧ d.provision = .unprovisioned

theorem Operation.consequence_congr {op : Operation} (h : ¬ op.Volatile d) :
    op.consequence config S p d = op.consequence config S q d := by
  cases op with
  | request r =>
    have hp : d.provision ≠ .unprovisioned := fun hp => h ⟨r, rfl, hp⟩
    simp only [consequence, DeviceRequest.consequence, if_neg hp]
  | alarm a => cases a <;> rfl
  | _ => rfl

theorem DeviceRequest.consequence_unprovisioned {config : DeviceConfig} {r : DeviceRequest}
    (h : d.provision = .unprovisioned) : (r.consequence config S p d).document = d := by
  simp only [consequence]
  split
  · rfl
  · rfl
  · rename_i target hplan
    obtain ⟨hkiosk, -⟩ := plan_persist hplan
    rw [h] at hkiosk
    cases hkiosk

theorem Operation.consequence_document (op : Operation) :
    (op.consequence config S p d).document = (op.consequence config S q d).document := by
  by_cases h : op.Volatile d
  · obtain ⟨r, rfl, hp⟩ := h
    exact (DeviceRequest.consequence_unprovisioned hp).trans
      (DeviceRequest.consequence_unprovisioned hp).symm
  · rw [consequence_congr h]

end Stored

end DeviceLock
