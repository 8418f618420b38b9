import DeviceLock.Proofs.Program.Jobs

namespace DeviceLock

namespace Deed

def isRequest : Deed → Bool
  | act _ _ => false
  | request _ _ => true

def issued? : Deed → Option Nat
  | act (.issue _ _ _) n => some n
  | _ => none

end Deed

namespace Program

variable {α β : Type}

def Brief : Program α → Nat → Prop
  | done _, _ => True
  | act _ next, n => ∀ x, (next x).Brief n
  | wait _ next, n => ∃ k, n = k + 1 ∧ ∀ x, (next x).Brief k

theorem Brief.mono {p : Program α} {n k : Nat} (h : p.Brief n) (hnk : n ≤ k) : p.Brief k := by
  induction p generalizing n k with
  | done r => trivial
  | act a next ih => exact fun x => ih x (h x) hnk
  | wait r next ih =>
    obtain ⟨m, rfl, hm⟩ := h
    exact ⟨k - 1, by omega, fun x => ih x (hm x) (by omega)⟩

theorem brief_bind {p : Program α} {f : α → Program β} {n k : Nat} (hp : p.Brief n)
    (hf : ∀ a, (f a).Brief k) : (p >>= f).Brief (n + k) := by
  induction p generalizing n with
  | done r =>
    cases r with
    | error e => trivial
    | ok a => exact (hf a).mono (Nat.le_add_left k n)
  | act a next ih => exact fun x => ih x (hp x)
  | wait r next ih =>
    obtain ⟨m, rfl, hm⟩ := hp
    exact ⟨m + k, by omega, fun x => ih x (hm x)⟩

theorem brief_attempt {p : Program α} {n : Nat} (hp : p.Brief n) : (attempt p).Brief n := by
  induction p generalizing n with
  | done r => trivial
  | act a next ih => exact fun x => ih x (hp x)
  | wait r next ih =>
    obtain ⟨m, rfl, hm⟩ := hp
    exact ⟨m, rfl, fun x => ih x (hm x)⟩

theorem brief_done (r : Except Fault α) (n : Nat) : (done r).Brief n := trivial

theorem brief_pure (a : α) (n : Nat) : (pure a : Program α).Brief n := trivial

theorem brief_perform (a : Act) (n : Nat) : (perform a).Brief n := fun _ => trivial

theorem brief_perform_bind {a : Act} {f : a.Answer → Program β} {n : Nat}
    (hf : ∀ x, (f x).Brief n) : (perform a >>= f).Brief n := hf

theorem brief_request (r : Request) : (request r).Brief 1 := ⟨0, rfl, fun _ => trivial⟩

theorem brief_only {c : Prop} [Decidable c] {p : Program Unit} {n : Nat} (hp : p.Brief n) :
    (only c p).Brief n := by
  unfold only
  split
  · exact hp
  · trivial

theorem brief_discard {p : Program α} {n : Nat} (hp : p.Brief n) : (discard p).Brief n :=
  brief_bind (k := 0) hp fun _ => brief_pure _ _

theorem brief_cursor : cursor.Brief 1 :=
  brief_bind (k := 0) (brief_request _) fun _ => brief_done _ _

theorem brief_load : load.Brief 1 := brief_bind (k := 0) (brief_request _) fun _ => brief_done _ _

theorem brief_write (c : Change) : (write c).Brief 1 :=
  brief_bind (k := 0) (brief_request _) fun _ => brief_done _ _

theorem brief_call (c : Call) (f : String → Fault) : (call c f).Brief 1 :=
  brief_bind (k := 0) (brief_request _) fun _ => brief_done _ _

theorem pass_brief (p : ProvisionState) (d : DeviceState) : (pass p d).Brief 1 := by
  unfold pass
  dsimp only
  split
  · exact brief_pure _ _
  · exact brief_perform_bind fun n =>
      brief_bind (k := 0) (brief_request _) fun _ => brief_done _ _

theorem present_brief (m : LockMode) : (present m).Brief 1 := by
  unfold present
  split
  · refine brief_bind (k := 0) (brief_request _) fun b => ?_
    split
    · exact brief_discard (brief_perform _ _)
    · exact brief_pure _ _
  · exact brief_perform_bind fun _ => brief_discard (brief_request _)

theorem enforce_brief (c : Bool) : (enforce c).Brief 4 := by
  refine brief_bind (n := 1) (k := 3) brief_cursor fun p => ?_
  refine brief_bind (n := 1) (k := 2) brief_load fun d => ?_
  refine brief_bind (n := 1) (k := 1) (brief_attempt (pass_brief p d.device)) fun r => ?_
  cases r with
  | error e => exact brief_perform_bind fun _ => brief_done _ _
  | ok s =>
    exact brief_perform_bind fun _ =>
      brief_bind (k := 0) (present_brief _) fun _ => brief_pure _ _

theorem critical_brief (config : RecoveryConfig) (cause : String) :
    (critical config cause).Brief 8 := by
  have hforce : (forceCritical cause).Brief 6 :=
    brief_bind (n := 4) (enforce_brief true) fun _ => brief_bind (n := 1) (brief_call _ _) fun _ =>
      brief_bind (k := 0) (brief_call _ _) fun _ => brief_pure _ _
  have hgive (e : Fault) : (giveUp config cause e).Brief 2 :=
    brief_perform_bind fun _ =>
      brief_bind (n := 1) (brief_discard (brief_request _)) fun _ =>
        brief_bind (k := 0) (brief_discard (brief_request _)) fun _ => brief_pure _ _
  refine brief_bind (n := 6) (k := 2) (brief_attempt hforce) fun r => ?_
  cases r with
  | ok m => exact brief_pure _ _
  | error e => exact brief_bind (k := 0) (hgive e) fun _ => brief_done _ _

theorem onEntry_brief (event : ProvisionEvent) (next : ProvisionState) :
    (onEntry event next).Brief 3 := by
  have hready : (do write (.startTime (← perform .now))).Brief 1 :=
    brief_perform_bind fun t => brief_write _
  rw [onEntry_eq]
  exact brief_bind (n := 1) (brief_only hready) fun _ =>
    brief_bind (n := 1) (brief_only (brief_call _ _)) fun _ => brief_only (brief_call _ _)

theorem advance_brief (event : ProvisionEvent) : (advance event).Brief 5 := by
  refine brief_bind (n := 1) (k := 4) brief_cursor fun p => ?_
  cases p.next event with
  | none => exact brief_perform_bind fun _ => brief_done _ _
  | some n =>
    exact brief_bind (n := 1) (brief_write _) fun _ =>
      brief_bind (k := 0) (onEntry_brief event n) fun _ =>
        brief_perform_bind fun _ =>
          brief_perform_bind fun _ => brief_pure _ _

theorem transition_brief (config : RecoveryConfig) (value : Option LockMode)
    (event : ProvisionEvent) : (transition config value event).Brief 17 := by
  refine brief_bind (n := 5) (k := 12) (brief_attempt (advance_brief event)) fun r => ?_
  rcases r with e | ⟨p, n⟩
  · exact brief_pure _ _
  · refine brief_bind (n := 4) (k := 8) (brief_attempt (enforce_brief false)) fun r => ?_
    cases r with
    | ok m => exact brief_pure _ _
    | error e =>
      refine brief_perform_bind fun _ => ?_
      refine brief_bind (k := 0) (brief_attempt (critical_brief config e.message)) fun r => ?_
      cases r <;> exact brief_pure _ _

theorem sendReport_brief (config : RecoveryConfig) (s : FinalizationState) :
    (sendReport config s).Brief 2 := by
  unfold sendReport
  split
  · exact brief_pure _ _
  · refine brief_bind (n := 1) (k := 1) (brief_request _) fun x => ?_
    cases x with
    | error m => exact brief_bind (k := 0) (brief_call _ _) fun _ => brief_pure _ _
    | ok u =>
      have hfinal : (finalize s .reportAcknowledged).Brief 0 := by
        unfold finalize
        split <;> trivial
      exact brief_bind hfinal fun _ => brief_bind (k := 0) (brief_write _) fun _ => brief_pure _ _

theorem finalization_brief (config : RecoveryConfig) (cached : Option FinalizationState)
    (job : FinalizationJob) : (Program.finalization config cached job).Brief 4 := by
  have hstart : (startState cached).Brief 1 := by
    cases cached with
    | some s => exact brief_pure _ _
    | none => exact brief_bind (k := 0) brief_load fun _ => brief_pure _ _
  have hproceed (s : FinalizationState) : (proceed job s).Brief 0 := by
    cases job <;> cases s <;> trivial
  rw [finalization_eq]
  refine brief_bind (n := 1) (k := 3) hstart fun current => ?_
  refine brief_bind (n := 0) (k := 3) (hproceed current) fun s => ?_
  refine brief_bind (n := 1) (k := 2) (brief_only (brief_write _)) fun _ => ?_
  cases job with
  | read => exact brief_pure _ _
  | cleared => exact sendReport_brief config s
  | retry => exact sendReport_brief config s

theorem Walk.brief {p q : Program α} {l : List Deed} {n : Nat} (h : Walk p l q)
    (hp : p.Brief n) : ∃ k, n = l.countP Deed.isRequest + k ∧ q.Brief k := by
  induction h generalizing n with
  | stay p => exact ⟨n, by simp, hp⟩
  | act x _ ih =>
    obtain ⟨k, rfl, hk⟩ := ih (hp x)
    exact ⟨k, by simp [Deed.isRequest], hk⟩
  | wait x _ ih =>
    obtain ⟨m, rfl, hm⟩ := hp
    obtain ⟨k, rfl, hk⟩ := ih (hm x)
    exact ⟨k, by simp [Deed.isRequest, List.countP_cons]; omega, hk⟩

section Founded

variable {κ : Type} {named : Request → κ → Prop} {given : Deed → κ → Prop} {known : κ → Prop}

/-- Names in its requests only what is known or has been given to it on the way. -/
def Founded (named : Request → κ → Prop) (given : Deed → κ → Prop) :
    Program α → (κ → Prop) → Prop
  | done _, _ => True
  | act a next, known =>
    ∀ x, (next x).Founded named given fun k => given (.act a x) k ∨ known k
  | wait r next, known =>
    (∀ k, named r k → known k) ∧ ∀ x, (next x).Founded named given known

theorem Founded.mono {p : Program α} {more : κ → Prop} (h : p.Founded named given known)
    (hk : ∀ k, known k → more k) : p.Founded named given more := by
  induction p generalizing known more with
  | done r => trivial
  | act a next ih => exact fun x => ih x (h x) fun k hn => hn.imp_right (hk k)
  | wait r next ih => exact ⟨fun k hn => hk k (h.1 k hn), fun x => ih x (h.2 x) hk⟩

theorem founded_bind {p : Program α} {f : α → Program β} (hp : p.Founded named given known)
    (hf : ∀ a, (f a).Founded named given known) : (p >>= f).Founded named given known := by
  induction p generalizing known with
  | done r =>
    cases r with
    | error e => trivial
    | ok a => exact hf a
  | act a next ih => exact fun x => ih x (hp x) fun b => (hf b).mono fun _ => .inr
  | wait r next ih => exact ⟨hp.1, fun x => ih x (hp.2 x) hf⟩

theorem founded_attempt {p : Program α} (hp : p.Founded named given known) :
    (attempt p).Founded named given known := by
  induction p generalizing known with
  | done r => trivial
  | act a next ih => exact fun x => ih x (hp x)
  | wait r next ih => exact ⟨hp.1, fun x => ih x (hp.2 x)⟩

theorem founded_perform_bind {a : Act} {f : a.Answer → Program β}
    (hf : ∀ x, (f x).Founded named given known) :
    (perform a >>= f).Founded named given known :=
  fun x => (hf x).mono fun _ => .inr

theorem founded_request {r : Request} (hr : ∀ k, ¬ named r k) :
    (request r).Founded named given known :=
  ⟨fun k hk => absurd hk (hr k), fun _ => trivial⟩

theorem Within.founded {F : Footprint} {p : Program α} (h : p.Within F)
    (hF : ∀ r k, F.requests r → ¬ named r k) (hx : ∀ r x, F.answers r x) :
    p.Founded named given known := by
  induction p generalizing known with
  | done r => trivial
  | act a next ih => exact fun x => ih x (h.2 x)
  | wait r next ih =>
    exact ⟨fun k hk => absurd hk (hF r k h.1), fun x => ih x (h.2 x (hx r x))⟩

theorem Walk.founded {p q : Program α} {l : List Deed} (h : Walk p l q)
    (hp : p.Founded named given known) :
    q.Founded named given fun k => (∃ d ∈ l, given d k) ∨ known k := by
  induction h generalizing known with
  | stay p => exact hp.mono fun _ => .inr
  | act x _ ih =>
    apply (ih (hp x)).mono
    rintro k (⟨d, hd, hk⟩ | hk | hk)
    · exact .inl ⟨d, List.mem_cons_of_mem _ hd, hk⟩
    · exact .inl ⟨_, List.mem_cons_self, hk⟩
    · exact .inr hk
  | wait x _ ih =>
    apply (ih (hp.2 x)).mono
    rintro k (⟨d, hd, hk⟩ | hk)
    · exact .inl ⟨d, List.mem_cons_of_mem _ hd, hk⟩
    · exact .inr hk

end Founded

def Grounded (p : Program α) (known : Nat → Prop) : Prop :=
  p.Founded (fun r n => r = .join n) (fun d n => d.issued? = some n) known

theorem grounded_bind {p : Program α} {f : α → Program β} {known : Nat → Prop}
    (hp : p.Grounded known) (hf : ∀ a, (f a).Grounded known) : (p >>= f).Grounded known :=
  founded_bind hp hf

theorem grounded_attempt {p : Program α} {known : Nat → Prop} (hp : p.Grounded known) :
    (attempt p).Grounded known :=
  founded_attempt hp

theorem Within.grounded {F : Footprint} {p : Program α} {known : Nat → Prop} (h : p.Within F)
    (hF : ∀ n, ¬ F.requests (.join n)) (hx : ∀ r x, F.answers r x) : p.Grounded known :=
  h.founded (fun _ n hr hn => hF n (hn ▸ hr)) hx

theorem grounded_perform_bind {a : Act} {f : a.Answer → Program β} {known : Nat → Prop}
    (hf : ∀ x, (f x).Grounded known) : (perform a >>= f).Grounded known :=
  founded_perform_bind hf

variable {known : Nat → Prop}

theorem pass_grounded (p : ProvisionState) (d : DeviceState) : (pass p d).Grounded known := by
  unfold pass
  dsimp only
  split
  · trivial
  · refine fun n => ⟨?_, fun _ => trivial⟩
    intro k hk
    exact .inl (congrArg some (Request.join.inj hk))

theorem request_grounded {r : Request} (hr : ∀ n, r ≠ .join n) : (request r).Grounded known :=
  founded_request hr

theorem present_grounded (m : LockMode) : (present m).Grounded known := by
  unfold present
  split
  · refine grounded_bind (request_grounded (by simp)) fun b => ?_
    split
    · exact grounded_perform_bind fun _ => trivial
    · trivial
  · exact grounded_perform_bind fun _ =>
      grounded_bind (request_grounded (by simp)) fun _ => trivial

theorem cursor_grounded : cursor.Grounded known :=
  grounded_bind (request_grounded (by simp)) fun _ => trivial

theorem load_grounded : load.Grounded known :=
  grounded_bind (request_grounded (by simp)) fun _ => trivial

theorem call_grounded (c : Call) (f : String → Fault) : (call c f).Grounded known :=
  grounded_bind (request_grounded (by simp)) fun _ => trivial

theorem enforce_grounded (c : Bool) : (enforce c).Grounded known := by
  refine grounded_bind cursor_grounded fun p => grounded_bind load_grounded fun d => ?_
  refine grounded_bind (grounded_attempt (pass_grounded p d.device)) fun r => ?_
  cases r with
  | error e => exact grounded_perform_bind fun _ => trivial
  | ok s =>
    exact grounded_perform_bind fun _ => grounded_bind (present_grounded _) fun _ => trivial

theorem critical_grounded (config : RecoveryConfig) (cause : String) :
    (critical config cause).Grounded known := by
  have hforce : (forceCritical cause).Grounded known :=
    grounded_bind (enforce_grounded true) fun _ => grounded_bind (call_grounded _ _) fun _ =>
      grounded_bind (call_grounded _ _) fun _ => trivial
  have hdiscard (c : Call) : (discard (request (.call c))).Grounded known :=
    grounded_bind (request_grounded (by simp)) fun _ => trivial
  have hgive (e : Fault) : (giveUp config cause e).Grounded known :=
    grounded_perform_bind fun _ => grounded_bind (hdiscard _) fun _ =>
      grounded_bind (hdiscard _) fun _ => trivial
  refine grounded_bind (grounded_attempt hforce) fun r => ?_
  cases r with
  | ok m => trivial
  | error e => exact grounded_bind (hgive e) fun _ => trivial

theorem advance_grounded (event : ProvisionEvent) : (advance event).Grounded known := by
  refine grounded_bind cursor_grounded fun p => ?_
  cases p.next event with
  | none => exact grounded_perform_bind fun _ => trivial
  | some n =>
    have hentry : (onEntry event n).Grounded known :=
      (onEntry_within event n).grounded (fun _ => id) fun _ _ => trivial
    exact grounded_bind (grounded_bind (request_grounded (by simp)) fun _ => trivial) fun _ =>
      grounded_bind hentry fun _ => grounded_perform_bind fun _ =>
        grounded_perform_bind fun _ => trivial

theorem transition_grounded (config : RecoveryConfig) (value : Option LockMode)
    (event : ProvisionEvent) : (transition config value event).Grounded known := by
  refine grounded_bind (grounded_attempt (advance_grounded event)) fun r => ?_
  rcases r with e | ⟨p, n⟩
  · trivial
  · refine grounded_bind (grounded_attempt (enforce_grounded false)) fun r => ?_
    cases r with
    | ok m => trivial
    | error e =>
      refine grounded_perform_bind fun _ => ?_
      refine grounded_bind (grounded_attempt (critical_grounded config e.message)) fun r => ?_
      cases r <;> trivial

theorem Walk.grounded {p q : Program α} {l : List Deed} (h : Walk p l q)
    (hp : p.Grounded known) :
    q.Grounded fun n => (∃ d ∈ l, d.issued? = some n) ∨ known n :=
  h.founded hp

section Ticketed

variable {known : Ticket → Prop}

def Ticketed (p : Program α) (known : Ticket → Prop) : Prop :=
  p.Founded (fun r t => r = .await t) (fun d t => ∃ j, d = .act (.submit j) t) known

theorem Within.ticketed {F : Footprint} {p : Program α} (h : p.Within F)
    (hF : ∀ t, ¬ F.requests (.await t)) (hx : ∀ r x, F.answers r x) : p.Ticketed known :=
  h.founded (fun _ t hr ht => hF t (ht ▸ hr)) hx

theorem request_ticketed {r : Request} (hr : ∀ t, r ≠ .await t) : (request r).Ticketed known :=
  founded_request hr

theorem await_ticketed (j : Job) : (await j).Ticketed known :=
  fun _ => ⟨fun _ hk => .inl ⟨j, by rw [Request.await.inj hk]⟩, fun _ => trivial⟩

theorem discard_ticketed {p : Program α} (hp : p.Ticketed known) : (discard p).Ticketed known :=
  founded_bind hp fun _ => trivial

theorem only_ticketed {c : Prop} [Decidable c] {p : Program Unit} (hp : p.Ticketed known) :
    (only c p).Ticketed known := by
  unfold only
  split
  · exact hp
  · trivial

theorem cursor_ticketed : cursor.Ticketed known :=
  founded_bind (request_ticketed (by simp)) fun _ => trivial

theorem load_ticketed : load.Ticketed known :=
  founded_bind (request_ticketed (by simp)) fun _ => trivial

theorem write_ticketed (c : Change) : (write c).Ticketed known :=
  founded_bind (request_ticketed (by simp)) fun _ => trivial

theorem persist_ticketed (request : DeviceRequest) (p : ProvisionState) (target : DeviceState) :
    (persist request p target).Ticketed known :=
  founded_bind (write_ticketed _) fun _ =>
    founded_bind (discard_ticketed (await_ticketed _)) fun _ =>
      founded_bind (only_ticketed (discard_ticketed (await_ticketed _))) fun _ =>
        founded_bind (only_ticketed (discard_ticketed (await_ticketed _))) fun _ => trivial

theorem carryOut_ticketed (config : DeviceConfig) (request : DeviceRequest) :
    (carryOut config request).Ticketed known := by
  rw [carryOut_eq]
  refine founded_bind (effective_within.ticketed (fun _ => id) fun _ _ => trivial) fun s => ?_
  split
  · trivial
  · exact founded_perform_bind fun _ => trivial
  · exact persist_ticketed request s.1 _

theorem setupDone_ticketed : setupDone.Ticketed known := by
  refine founded_bind (request_ticketed (by simp)) fun b => ?_
  split
  · trivial
  · exact founded_bind load_ticketed fun _ => trivial

theorem raiseReady_ticketed : raiseReady.Ticketed known :=
  founded_bind (discard_ticketed (await_ticketed _)) fun _ => trivial

theorem reenforce_ticketed : reenforce.Ticketed known :=
  founded_bind (discard_ticketed (await_ticketed _)) fun _ => trivial

theorem reconcile_ticketed : reconcile.Ticketed known := by
  refine founded_bind cursor_ticketed fun p => ?_
  split
  · refine founded_bind setupDone_ticketed fun b => ?_
    split
    · refine founded_bind load_ticketed fun d => ?_
      split
      · exact raiseReady_ticketed
      · exact reenforce_ticketed
    · exact reenforce_ticketed
  · exact reenforce_ticketed

theorem notifyReady_ticketed (config : RecoveryConfig) : (notifyReady config).Ticketed known := by
  refine founded_bind setupDone_ticketed fun b => ?_
  split
  · exact raiseReady_ticketed
  · exact founded_bind (founded_bind (request_ticketed (by simp)) fun _ => trivial) fun _ => trivial

theorem setupTimeout_ticketed : setupTimeout.Ticketed known :=
  founded_bind (write_ticketed _) fun _ => reconcile_ticketed

theorem isLocked_ticketed : isLocked.Ticketed known :=
  founded_bind (effective_within.ticketed (fun _ => id) fun _ _ => trivial) fun _ => trivial

theorem status_ticketed : status.Ticketed known :=
  founded_bind load_ticketed fun _ => founded_bind cursor_ticketed fun _ =>
    founded_perform_bind fun _ => founded_perform_bind fun _ => trivial

end Ticketed

end Program

open Program

theorem PolicyJob.program_brief (config : EngineConfig) (value : Option LockMode)
    (job : PolicyJob) : (job.program config value).Brief 17 := by
  have henforce : (Program.enforce false >>= recorded).Brief 17 :=
    (brief_bind (k := 0) (enforce_brief false) fun _ => brief_pure _ _).mono (by omega)
  cases job with
  | enforce => exact henforce
  | critical cause =>
    exact (brief_bind (k := 0) (critical_brief _ cause) fun _ => brief_pure _ _).mono (by omega)
  | mode =>
    cases value with
    | some m => trivial
    | none => exact henforce
  | invalidate => trivial
  | transition event =>
    exact brief_bind (k := 0) (transition_brief _ _ event) fun _ => brief_pure _ _

theorem PolicyJob.program_grounded (config : EngineConfig) (value : Option LockMode)
    (job : PolicyJob) {known : Nat → Prop} : (job.program config value).Grounded known := by
  have henforce : (Program.enforce false >>= recorded).Grounded known :=
    grounded_bind (enforce_grounded false) fun _ => trivial
  cases job with
  | enforce => exact henforce
  | critical cause => exact grounded_bind (critical_grounded _ cause) fun _ => trivial
  | mode =>
    cases value with
    | some m => trivial
    | none => exact henforce
  | invalidate => trivial
  | transition event => exact grounded_bind (transition_grounded _ _ event) fun _ => trivial

theorem DeviceRequest.program_ticketed (config : EngineConfig) (request : DeviceRequest)
    {known : Ticket → Prop} : (request.program config).Ticketed known :=
  founded_bind (carryOut_ticketed _ _) fun _ => trivial

theorem Operation.program_ticketed (config : EngineConfig) (op : Operation)
    {known : Ticket → Prop} : (op.program config).Ticketed known := by
  cases op with
  | isLocked => exact founded_bind isLocked_ticketed fun _ => trivial
  | deviceState => exact founded_bind load_ticketed fun _ => trivial
  | provisionState => exact founded_bind cursor_ticketed fun _ => trivial
  | notifyReady => exact notifyReady_ticketed _
  | ready => exact founded_bind (write_ticketed _) fun _ => notifyReady_ticketed _
  | userUnlocked =>
    exact founded_bind (discard_ticketed (await_ticketed _)) fun _ => reconcile_ticketed
  | setupCompleted => exact reconcile_ticketed
  | reconcile => exact reconcile_ticketed
  | setupTimeout => exact setupTimeout_ticketed
  | alarm a =>
    cases a with
    | setupCompletionTimeout => exact setupTimeout_ticketed
    | criticalEnforcementRetry => exact reconcile_ticketed
    | finalizationReportRetry =>
      exact founded_bind (discard_ticketed (await_ticketed _)) fun _ => trivial
  | document => exact founded_bind load_ticketed fun _ => trivial
  | status => exact status_ticketed
  | schedule mode => exact founded_perform_bind fun _ => trivial
  | deactivate =>
    exact founded_perform_bind fun _ =>
      founded_bind (founded_bind (request_ticketed (by simp)) fun _ => trivial) fun _ => trivial
  | _ => exact await_ticketed _

end DeviceLock
