import DeviceLock.Proofs.Program.Jobs

namespace DeviceLock

open Program

def Footprint.direct : Footprint where
  acts
    | .submit _ => False
    | _ => True
  requests
    | .await _ => False
    | _ => True

def Deed.ticket? : Deed → Option Ticket
  | act (.submit _) t => some t
  | _ => none

namespace Program

variable {α β : Type} {J : Job → Prop} {owed : Option Ticket}

/-- Submits such jobs only, each of them is what it awaits next, and it awaits nothing else. -/
def Serial (J : Job → Prop) : Option Ticket → Program α → Prop
  | owed, done _ => owed = none
  | owed, act a next =>
    owed = none ∧ (∀ j, a = .submit j → J j) ∧ ∀ x, (next x).Serial J (Deed.act a x).ticket?
  | owed, wait r next => (∀ t, r = .await t ↔ owed = some t) ∧ ∀ x, (next x).Serial J none

theorem serial_bind {p : Program α} {f : α → Program β} (hp : p.Serial J owed)
    (hf : ∀ a, (f a).Serial J none) : (p >>= f).Serial J owed := by
  induction p generalizing owed with
  | done r =>
    obtain rfl : owed = none := hp
    cases r with
    | error e => exact rfl
    | ok a => exact hf a
  | act a next ih => exact ⟨hp.1, hp.2.1, fun x => ih x (hp.2.2 x)⟩
  | wait r next ih => exact ⟨hp.1, fun x => ih x (hp.2 x)⟩

theorem serial_of_within {p : Program α} (hp : p.Within .direct) : p.Serial J none := by
  induction p with
  | done r => rfl
  | act a next ih =>
    have hnext (x : a.Answer) := ih x (hp.2 x)
    cases a with
    | submit j => exact hp.1.elim
    | _ => exact ⟨rfl, by simp, hnext⟩
  | wait r next ih =>
    refine ⟨fun t => ?_, fun x => ih x (hp.2 x trivial)⟩
    cases r with
    | await t => exact hp.1.elim
    | _ => simp

theorem Serial.awaits {t : Ticket} {p : Program α} (h : p.Serial J (some t)) :
    ∃ next, p = .wait (.await t) next ∧ ∀ x, (next x).Serial J none := by
  cases p with
  | done r => cases h
  | act a next => cases h.1
  | wait r next =>
    obtain rfl := (h.1 t).mpr rfl
    exact ⟨next, rfl, h.2⟩

theorem serial_await {j : Job} (hj : J j) : (await j).Serial J none := by
  refine ⟨rfl, ?_, fun t => ⟨fun t' => ?_, fun _ => rfl⟩⟩
  · rintro _ ⟨⟩
    exact hj
  · simp [Deed.ticket?]

theorem serial_discard {p : Program α} (hp : p.Serial J none) : (discard p).Serial J none :=
  serial_bind hp fun _ => rfl

theorem serial_only {c : Prop} [Decidable c] {p : Program Unit} (hp : c → p.Serial J none) :
    (only c p).Serial J none := by
  unfold only
  split
  · rename_i hc
    exact hp hc
  · exact rfl

theorem direct_of_within {F : Footprint} {p : Program α} (h : p.Within F)
    (ha : ∀ j, ¬ F.acts (.submit j)) (hr : ∀ t, ¬ F.requests (.await t))
    (hx : ∀ r x, F.answers r x) : p.Within .direct := by
  apply h.mono
  · intro a hF
    cases a <;> first | trivial | exact ha _ hF
  · intro r hF
    cases r <;> first | trivial | exact hr _ hF
  · exact fun r x _ => hx r x

theorem effective_direct : effective.Within .direct :=
  direct_of_within effective_within (fun _ => by simp [Footprint.measuring]) (fun _ => id)
    fun _ _ => trivial

theorem setupDone_direct : setupDone.Within .direct := by
  refine within_bind (within_request trivial) fun b => ?_
  split
  · exact within_pure _
  · exact within_bind (load_within trivial) fun _ => within_pure _

section

variable (hpolicy : ∀ j, J (.policy j))
include hpolicy

theorem persist_serial (hcleared : J (.finalization .cleared)) (request : DeviceRequest)
    (p : ProvisionState) (target : DeviceState) : (persist request p target).Serial J none := by
  refine serial_bind (serial_of_within (write_within trivial)) fun _ => ?_
  refine serial_bind (serial_discard (serial_await (hpolicy _))) fun _ => ?_
  refine serial_bind (serial_only fun _ => serial_discard (serial_await (hpolicy _))) fun _ => ?_
  exact serial_bind (serial_only fun _ => serial_discard (serial_await hcleared)) fun _ => rfl

theorem carryOut_serial (hcleared : J (.finalization .cleared)) (config : DeviceConfig)
    (request : DeviceRequest) : (carryOut config request).Serial J none := by
  rw [carryOut_eq]
  refine serial_bind (serial_of_within effective_direct) fun s => ?_
  split
  · exact rfl
  · exact serial_of_within (within_bind (within_perform trivial) fun _ => within_pure _)
  · exact persist_serial hpolicy hcleared request s.1 _

theorem raiseReady_serial : raiseReady.Serial J none :=
  serial_bind (serial_discard (serial_await (hpolicy _))) fun _ => rfl

theorem reenforce_serial : reenforce.Serial J none :=
  serial_bind (serial_discard (serial_await (hpolicy _))) fun _ => rfl

theorem reconcile_serial : reconcile.Serial J none := by
  refine serial_bind (serial_of_within (cursor_within trivial)) fun p => ?_
  split
  · refine serial_bind (serial_of_within setupDone_direct) fun b => ?_
    split
    · refine serial_bind (serial_of_within (load_within trivial)) fun d => ?_
      split
      · exact raiseReady_serial hpolicy
      · exact reenforce_serial hpolicy
    · exact reenforce_serial hpolicy
  · exact reenforce_serial hpolicy

theorem notifyReady_serial (config : RecoveryConfig) :
    (Program.notifyReady config).Serial J none := by
  refine serial_bind (serial_of_within setupDone_direct) fun b => ?_
  split
  · exact raiseReady_serial hpolicy
  · exact serial_of_within (within_bind (call_within trivial) fun _ => within_pure _)

theorem setupTimeout_serial : Program.setupTimeout.Serial J none :=
  serial_bind (serial_of_within (write_within trivial)) fun _ => reconcile_serial hpolicy

end

theorem status_direct : status.Within .direct :=
  within_bind (load_within trivial) fun _ => within_bind (cursor_within trivial) fun _ =>
    within_bind (within_perform trivial) fun _ => within_bind (within_perform trivial) fun _ =>
      within_pure _

end Program

theorem DeviceRequest.program_serial {J : Job → Prop} (config : EngineConfig)
    (request : DeviceRequest) (hpolicy : ∀ j, J (.policy j))
    (hcleared : J (.finalization .cleared)) : (request.program config).Serial J none :=
  serial_bind (carryOut_serial hpolicy hcleared _ _) fun _ => rfl

theorem Operation.program_serial {J : Job → Prop} (config : EngineConfig) (op : Operation)
    (hJ : ∀ j, J j) : (op.program config).Serial J none := by
  have hpolicy (j : PolicyJob) : J (.policy j) := hJ _
  cases op with
  | isLocked =>
    exact serial_of_within (within_bind (within_bind effective_direct fun _ => within_pure _)
      fun _ => within_pure _)
  | deviceState => exact serial_of_within (within_bind (load_within trivial) fun _ => within_pure _)
  | provisionState =>
    exact serial_of_within (within_bind (cursor_within trivial) fun _ => within_pure _)
  | notifyReady => exact notifyReady_serial hpolicy _
  | ready =>
    exact serial_bind (serial_of_within (write_within trivial)) fun _ =>
      notifyReady_serial hpolicy _
  | userUnlocked =>
    exact serial_bind (serial_discard (serial_await (hJ _))) fun _ => reconcile_serial hpolicy
  | setupCompleted => exact reconcile_serial hpolicy
  | reconcile => exact reconcile_serial hpolicy
  | setupTimeout => exact setupTimeout_serial hpolicy
  | alarm a =>
    cases a with
    | setupCompletionTimeout => exact setupTimeout_serial hpolicy
    | criticalEnforcementRetry => exact reconcile_serial hpolicy
    | finalizationReportRetry =>
      exact serial_bind (serial_discard (serial_await (hJ _))) fun _ => rfl
  | document => exact serial_of_within (within_bind (load_within trivial) fun _ => within_pure _)
  | status => exact serial_of_within status_direct
  | schedule mode =>
    exact serial_of_within (within_bind (within_perform trivial) fun _ => within_pure _)
  | deactivate =>
    exact serial_of_within (within_bind (within_perform trivial) fun _ =>
      within_bind (call_within trivial) fun _ => within_pure _)
  | _ => exact serial_await (hJ _)

end DeviceLock
