import DeviceLock.Proofs.Program.Obliging
import DeviceLock.Proofs.Program.Sequence
import Mathlib.Algebra.GroupWithZero.Nat

namespace DeviceLock

def Lane.price : Lane → Nat
  | policy => 11
  | requests => 34
  | finalization => 5

def Job.price : Job → Nat
  | policy _ => Lane.policy.price
  | request _ => Lane.requests.price
  | finalization _ => Lane.finalization.price

def Act.price : Act → Nat
  | submit j => j.price
  | schedule _ => 1
  | _ => 0

def Deed.price : Deed → Nat
  | act a _ => a.price
  | request _ _ => 1

namespace Program

variable {α β : Type}

/-- While nothing is refused, takes no more than so many steps, and does not ask for the end of the
process. -/
def Costs : Program α → Nat → Prop
  | done _, _ => True
  | act a next, n => ∃ k, n = a.price + k ∧ ∀ x, (next x).Costs k
  | wait r next, n => (∀ reason, r ≠ .call (.terminate reason)) ∧
      ∃ k, n = k + 1 ∧ ∀ x, (Deed.request r x).Served → (next x).Costs k

theorem Costs.mono {p : Program α} {n k : Nat} (h : p.Costs n) (hnk : n ≤ k) : p.Costs k := by
  induction p generalizing n k with
  | done r => trivial
  | act a next ih =>
    obtain ⟨m, rfl, hm⟩ := h
    exact ⟨k - a.price, by omega, fun x => ih x (hm x) (by omega)⟩
  | wait r next ih =>
    obtain ⟨hr, m, rfl, hm⟩ := h
    exact ⟨hr, k - 1, by omega, fun x hx => ih x (hm x hx) (by omega)⟩

theorem costs_bind {p : Program α} {f : α → Program β} {n k : Nat} (hp : p.Costs n)
    (hf : ∀ a, (f a).Costs k) : (p >>= f).Costs (n + k) := by
  induction p generalizing n with
  | done r =>
    cases r with
    | error e => trivial
    | ok a => exact (hf a).mono (Nat.le_add_left k n)
  | act a next ih =>
    obtain ⟨m, rfl, hm⟩ := hp
    exact ⟨m + k, by omega, fun x => ih x (hm x)⟩
  | wait r next ih =>
    obtain ⟨hr, m, rfl, hm⟩ := hp
    exact ⟨hr, m + k, by omega, fun x hx => ih x (hm x hx)⟩

theorem costs_attempt_bind {p : Program α} {Q : Except Fault α → Prop}
    {f : Except Fault α → Program β} {n k : Nat} (hp : p.Costs n) (hQ : p.Meets .served Q)
    (hf : ∀ r, Q r → (f r).Costs k) : (attempt p >>= f).Costs (n + k) := by
  induction p generalizing n with
  | done r => exact (hf r hQ).mono (Nat.le_add_left k n)
  | act a next ih =>
    obtain ⟨m, rfl, hm⟩ := hp
    exact ⟨m + k, by omega, fun x => ih x (hm x) (hQ.2 x)⟩
  | wait r next ih =>
    obtain ⟨hr, m, rfl, hm⟩ := hp
    exact ⟨hr, m + k, by omega, fun x hx => ih x (hm x hx) (hQ.2 x hx)⟩

theorem costs_attempt {p : Program α} {n : Nat} (hp : p.Costs n) : (attempt p).Costs n := by
  induction p generalizing n with
  | done r => trivial
  | act a next ih =>
    obtain ⟨m, rfl, hm⟩ := hp
    exact ⟨m, rfl, fun x => ih x (hm x)⟩
  | wait r next ih =>
    obtain ⟨hr, m, rfl, hm⟩ := hp
    exact ⟨hr, m, rfl, fun x hx => ih x (hm x hx)⟩

theorem costs_pure (a : α) (n : Nat) : (pure a : Program α).Costs n := trivial

theorem costs_done (r : Except Fault α) (n : Nat) : (done r).Costs n := trivial

theorem costs_bind_pure {p : Program α} {g : α → β} {n : Nat} (hp : p.Costs n) :
    (p >>= fun a => pure (g a)).Costs n := costs_bind (k := 0) hp fun _ => costs_pure _ _

theorem costs_perform_bind {a : Act} {f : a.Answer → Program β} {n : Nat}
    (hf : ∀ x, (f x).Costs n) : (perform a >>= f).Costs (a.price + n) := ⟨n, rfl, hf⟩

theorem costs_request {r : Request} (hr : ∀ reason, r ≠ .call (.terminate reason)) :
    (request r).Costs 1 := ⟨hr, 0, rfl, fun _ _ => trivial⟩

theorem costs_discard {p : Program α} {n : Nat} (hp : p.Costs n) : (discard p).Costs n :=
  costs_bind (k := 0) hp fun _ => costs_pure _ _

theorem costs_only {c : Prop} [Decidable c] {p : Program Unit} {n : Nat} (hp : p.Costs n) :
    (only c p).Costs n := by
  unfold only
  split
  · exact hp
  · trivial

theorem costs_cursor : cursor.Costs 1 :=
  costs_bind (k := 0) (costs_request (by simp)) fun _ => costs_done _ _

theorem costs_load : load.Costs 1 :=
  costs_bind (k := 0) (costs_request (by simp)) fun _ => costs_done _ _

theorem costs_write (c : Change) : (write c).Costs 1 :=
  costs_bind (k := 0) (costs_request (by simp)) fun _ => costs_done _ _

theorem costs_call {c : Call} (hc : ∀ reason, c ≠ .terminate reason) (f : String → Fault) :
    (call c f).Costs 1 :=
  costs_bind (k := 0) (costs_request fun reason h => hc reason (Request.call.inj h))
    fun _ => costs_done _ _

theorem costs_await (j : Job) : (await j).Costs (j.price + 1) :=
  costs_perform_bind (a := .submit j) fun t =>
    costs_bind (k := 0) (costs_request (r := .await t) (by simp)) fun _ => costs_done _ _

theorem pass_costs (p : ProvisionState) (d : DeviceState) : (pass p d).Costs 1 := by
  unfold pass
  dsimp only
  split
  · exact costs_pure _ _
  · exact costs_perform_bind (a := .issue p d _) fun n =>
      costs_bind (k := 0) (costs_request (r := .join n) (by simp)) fun _ => costs_done _ _

theorem present_costs (mode : LockMode) : (present mode).Costs 2 := by
  unfold present
  split
  · refine costs_bind (n := 1) (k := 1) (costs_request (r := .ask .userUnlocked) (by simp))
      fun b => ?_
    split
    · exact costs_discard (costs_perform_bind (a := .schedule mode) (n := 0) fun _ => trivial)
    · exact costs_pure _ _
  · refine (costs_perform_bind (a := .cancel) (n := 1) fun _ => ?_).mono (by decide)
    exact costs_discard (costs_request (r := .call .exit) (by simp))

theorem enforce_costs (c : Bool) : (enforce c).Costs 5 := by
  refine costs_bind (n := 1) (k := 4) costs_cursor fun p => ?_
  refine costs_bind (n := 1) (k := 3) costs_load fun d => ?_
  refine costs_bind (n := 1) (k := 2) (costs_attempt (pass_costs p d.device)) fun r => ?_
  cases r with
  | error e => exact costs_perform_bind (a := .count _) (n := 2) fun _ => costs_done _ _
  | ok step =>
    exact costs_perform_bind (a := .count _) (n := 2) fun _ =>
      costs_bind_pure (present_costs _)

theorem critical_costs (config : RecoveryConfig) (cause : String) :
    (critical config cause).Costs 7 := by
  have hforce : (forceCritical cause).Costs 7 :=
    costs_bind (n := 5) (k := 2) (enforce_costs true) fun _ =>
      costs_bind (n := 1) (k := 1) (costs_call (by simp) _) fun _ =>
        costs_bind_pure (costs_call (by simp) _)
  refine costs_attempt_bind (k := 0) hforce (forceCritical_served cause) ?_
  rintro _ ⟨mode, rfl⟩
  exact costs_pure _ _

theorem onEntry_costs (event : ProvisionEvent) (next : ProvisionState) :
    (onEntry event next).Costs 3 := by
  have hready : (do write (.startTime (← perform .now))).Costs 1 :=
    costs_perform_bind (a := .now) fun t => costs_write _
  rw [onEntry_eq]
  exact costs_bind (n := 1) (costs_only hready) fun _ =>
    costs_bind (n := 1) (costs_only (costs_call (by simp) _)) fun _ =>
      costs_only (costs_call (by simp) _)

theorem advance_costs (event : ProvisionEvent) : (advance event).Costs 5 := by
  refine costs_bind (n := 1) (k := 4) costs_cursor fun p => ?_
  cases p.next event with
  | none => exact costs_perform_bind (a := .count _) (n := 4) fun _ => costs_done _ _
  | some n =>
    exact costs_bind (n := 1) (costs_write _) fun _ =>
      costs_bind (n := 3) (k := 0) (onEntry_costs event n) fun _ =>
        costs_perform_bind (a := .moveCursor n) (n := 0) fun _ =>
          costs_perform_bind (a := .count _) (n := 0) fun _ => costs_pure _ _

theorem transition_costs (config : RecoveryConfig) (value : Option LockMode)
    (event : ProvisionEvent) : (transition config value event).Costs 10 := by
  refine costs_bind (n := 5) (k := 5) (costs_attempt (advance_costs event)) fun r => ?_
  rcases r with e | ⟨p, n⟩
  · exact costs_pure _ _
  · refine costs_attempt_bind (k := 0) (enforce_costs false) (enforce_served false) ?_
    rintro _ ⟨mode, rfl⟩
    exact costs_pure _ _

theorem sendReport_costs (config : RecoveryConfig) (s : FinalizationState) :
    (sendReport config s).Costs 2 := by
  unfold sendReport
  split
  · exact costs_pure _ _
  · refine costs_bind (n := 1) (k := 1) (costs_request (r := .call .reportFinalized) (by simp))
      fun x => ?_
    cases x with
    | error m => exact costs_bind_pure (costs_call (by simp) _)
    | ok u =>
      have hfinal : (finalize s .reportAcknowledged).Costs 0 := by
        unfold finalize
        split <;> trivial
      exact costs_bind hfinal fun _ => costs_bind_pure (costs_write _)

theorem finalization_costs (config : RecoveryConfig) (cached : Option FinalizationState)
    (job : FinalizationJob) : (Program.finalization config cached job).Costs 4 := by
  have hstart : (startState cached).Costs 1 := by
    cases cached with
    | some s => exact costs_pure _ _
    | none => exact costs_bind_pure costs_load
  have hproceed (s : FinalizationState) : (proceed job s).Costs 0 := by
    cases job <;> cases s <;> trivial
  rw [finalization_eq]
  refine costs_bind (n := 1) (k := 3) hstart fun current => ?_
  refine costs_bind (n := 0) (k := 3) (hproceed current) fun s => ?_
  refine costs_bind (n := 1) (k := 2) (costs_only (costs_write _)) fun _ => ?_
  cases job with
  | read => exact costs_pure _ _
  | cleared => exact sendReport_costs config s
  | retry => exact sendReport_costs config s

theorem effective_costs : effective.Costs 2 := by
  refine costs_bind (n := 1) (k := 1) costs_cursor fun p => ?_
  split
  · exact (costs_perform_bind (a := .pseudo) (n := 0) fun _ => costs_pure _ _).mono (by decide)
  · exact costs_bind_pure costs_load

theorem carryOut_costs (config : DeviceConfig) (request : DeviceRequest) :
    (carryOut config request).Costs 33 := by
  rw [carryOut_eq]
  refine costs_bind (n := 2) (k := 31) effective_costs fun s => ?_
  split
  · exact costs_done _ _
  · exact costs_perform_bind (a := .setPseudo _) (n := 31) fun _ => costs_pure _ _
  · exact costs_bind (n := 1) (k := 30) (costs_write _) fun _ =>
      costs_bind (n := 12) (k := 18) (costs_discard (costs_await _)) fun _ =>
        costs_bind (n := 12) (k := 6) (costs_only (costs_discard (costs_await _))) fun _ =>
          costs_bind_pure (costs_only (costs_discard (costs_await _)))

theorem setupDone_costs : setupDone.Costs 2 := by
  refine costs_bind (n := 1) (k := 1) (costs_request (r := .ask .setupComplete) (by simp))
    fun b => ?_
  split
  · exact costs_pure _ _
  · exact costs_bind_pure costs_load

theorem raiseReady_costs : raiseReady.Costs 12 :=
  costs_bind_pure (costs_discard (costs_await _))

theorem reenforce_costs : reenforce.Costs 12 :=
  costs_bind_pure (costs_discard (costs_await _))

theorem reconcile_costs : reconcile.Costs 16 := by
  refine costs_bind (n := 1) (k := 15) costs_cursor fun p => ?_
  split
  · refine costs_bind (n := 2) (k := 13) setupDone_costs fun b => ?_
    split
    · refine costs_bind (n := 1) (k := 12) costs_load fun d => ?_
      split
      · exact raiseReady_costs
      · exact reenforce_costs
    · exact reenforce_costs.mono (by decide)
  · exact reenforce_costs.mono (by decide)

theorem notifyReady_costs (config : RecoveryConfig) : (notifyReady config).Costs 14 := by
  refine costs_bind (n := 2) (k := 12) setupDone_costs fun b => ?_
  split
  · exact raiseReady_costs
  · exact (costs_bind_pure (costs_call (by simp) _)).mono (by decide)

theorem setupTimeout_costs : setupTimeout.Costs 17 :=
  costs_bind (n := 1) (costs_write _) fun _ => reconcile_costs

theorem status_costs : status.Costs 2 :=
  costs_bind (n := 1) (k := 1) costs_load fun _ => costs_bind (k := 0) costs_cursor fun _ =>
    costs_perform_bind (a := .pseudo) (n := 0) fun _ =>
      costs_perform_bind (a := .latest) (n := 0) fun _ => costs_pure _ _

theorem Walk.costs {p q : Program α} {l : List Deed} {n : Nat} (h : Walk p l q) (hp : p.Costs n)
    (hl : ∀ d ∈ l, d.Served) :
    (∃ k, n = (l.map Deed.price).sum + k ∧ q.Costs k) ∧
      ∀ reason x, .request (.call (.terminate reason)) x ∉ l := by
  induction h generalizing n with
  | stay p => exact ⟨⟨n, by simp, hp⟩, by simp⟩
  | act x _ ih =>
    obtain ⟨m, rfl, hm⟩ := hp
    obtain ⟨⟨k, rfl, hk⟩, hcalls⟩ := ih (hm x) (List.forall_mem_cons.mp hl).2
    exact ⟨⟨k, by simp [Deed.price, Nat.add_assoc], hk⟩, by simpa using hcalls⟩
  | wait x _ ih =>
    obtain ⟨hr, m, rfl, hm⟩ := hp
    obtain ⟨hx, hl⟩ := List.forall_mem_cons.mp hl
    obtain ⟨⟨k, rfl, hk⟩, hcalls⟩ := ih (hm x hx) hl
    refine ⟨⟨k, by simp [Deed.price]; omega, hk⟩, fun reason y hmem => ?_⟩
    rcases List.mem_cons.mp hmem with he | hmem
    · cases he
      exact hr reason rfl
    · exact hcalls reason y hmem

end Program

open Program

theorem PolicyJob.program_costs (config : EngineConfig) (value : Option LockMode)
    (job : PolicyJob) : (job.program config value).Costs 10 := by
  have henforce : (Program.enforce false >>= recorded).Costs 10 :=
    (costs_bind_pure (enforce_costs false)).mono (by decide)
  cases job with
  | enforce => exact henforce
  | critical cause =>
    exact (costs_bind_pure (critical_costs _ cause)).mono (by decide)
  | mode =>
    cases value with
    | some m => trivial
    | none => exact henforce
  | invalidate => trivial
  | transition event =>
    exact costs_bind_pure (transition_costs _ _ event)

theorem Operation.program_costs (config : EngineConfig) (op : Operation) :
    (op.program config).Costs 35 := by
  cases op with
  | isLocked =>
    have hlocked : Program.isLocked.Costs 2 :=
      costs_bind_pure effective_costs
    exact (costs_bind_pure hlocked).mono (by decide)
  | deviceState => exact (costs_bind_pure costs_load).mono (by decide)
  | provisionState =>
    exact (costs_bind_pure costs_cursor).mono (by decide)
  | notifyReady => exact (notifyReady_costs _).mono (by decide)
  | ready =>
    exact (costs_bind (n := 1) (costs_write _) fun _ => notifyReady_costs _).mono (by decide)
  | userUnlocked =>
    exact (costs_bind (n := 12) (costs_discard (costs_await _)) fun _ => reconcile_costs).mono
      (by decide)
  | setupCompleted => exact reconcile_costs.mono (by decide)
  | reconcile => exact reconcile_costs.mono (by decide)
  | setupTimeout => exact setupTimeout_costs.mono (by decide)
  | alarm a =>
    cases a with
    | setupCompletionTimeout => exact setupTimeout_costs.mono (by decide)
    | criticalEnforcementRetry => exact reconcile_costs.mono (by decide)
    | finalizationReportRetry =>
      exact (costs_bind_pure (costs_discard (costs_await _))).mono (by decide)
  | document => exact (costs_bind_pure costs_load).mono (by decide)
  | status => exact status_costs.mono (by decide)
  | schedule mode =>
    exact costs_perform_bind (a := .schedule mode) (n := 34) fun _ => costs_pure _ _
  | deactivate =>
    exact (costs_perform_bind (a := .cancel) (n := 1) fun _ =>
      costs_bind_pure (costs_call (by simp) _)).mono (by decide)
  | _ => exact (costs_await _).mono (by simp [Job.price, Lane.price])

end DeviceLock
