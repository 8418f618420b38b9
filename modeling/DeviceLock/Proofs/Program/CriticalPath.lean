import DeviceLock.Proofs.Program.Joining
import DeviceLock.Simulation.Basic

namespace DeviceLock

inductive Escalation
  | failure
  | retry (seconds : UInt64)
  | terminate (reason : String)
  deriving DecidableEq

namespace Escalation

end Escalation

def Event.escalation? : Event → Option Escalation
  | .counted .criticalFailure => some .failure
  | .called (.alarm .criticalEnforcementRetry s) _ => some (.retry s)
  | .called (.terminate r) _ => some (.terminate r)
  | _ => none

namespace Deed

def event? : Deed → Option Event
  | act (.issue p d s) n => some (.issued n p d s)
  | act (.count k) _ => some (.counted k)
  | request (.write c) x => some (.wrote c (.ofExcept x))
  | request (.call k) x => some (.called k (.ofExcept x))
  | _ => none

def escalation? (d : Deed) : Option Escalation := d.event?.bind Event.escalation?

end Deed

def Footprint.unescalated : Footprint where
  acts a := a ≠ .count .criticalFailure
  requests
    | .call (.alarm .criticalEnforcementRetry _) | .call (.terminate _) => False
    | _ => True

namespace RecoveryConfig

def escalations (config : RecoveryConfig) : Fault → List Escalation
  | .critical reason => [.failure, .retry config.criticalRetry, .terminate reason]
  | _ => []

def escalationsOf {α : Type} (config : RecoveryConfig) : Except Fault α → List Escalation
  | .ok _ => []
  | .error f => config.escalations f

end RecoveryConfig

theorem Deed.escalation?_of_unescalated {d : Deed} (h : d.Within .unescalated) :
    d.escalation? = none := by
  cases d with
  | act a x =>
    cases a with
    | count k => cases k <;> first | rfl | exact absurd rfl h
    | _ => rfl
  | request r x =>
    cases r with
    | call k =>
      cases k with
      | alarm a s => cases a <;> first | rfl | exact h.elim
      | terminate r => exact h.elim
      | _ => rfl
    | _ => rfl

theorem Deed.unescalated_of_lane {d : Deed} {lane : Lane} (hne : lane ≠ .policy)
    (h : d.Within lane.footprint) : d.Within .unescalated := by
  cases d with
  | act a x =>
    cases lane <;> cases a <;> simp_all [Within, Lane.footprint, Footprint.unescalated]
  | request r x =>
    cases r with
    | call c =>
      cases lane with
      | policy => exact absurd rfl hne
      | requests => exact h.elim
      | finalization =>
        obtain rfl | ⟨s, rfl⟩ := h <;> trivial
    | _ => trivial

theorem Deed.unescalated_of_caller {d : Deed} {J : Job → Prop} (h : d.Within (.caller J)) :
    d.Within .unescalated := by
  cases d with
  | act a x => cases a <;> simp_all [Within, Footprint.caller, Footprint.unescalated]
  | request r x =>
    cases r with
    | call c => obtain rfl | ⟨s, rfl⟩ := h <;> trivial
    | _ => trivial

inductive Enforces (provision : ProvisionState) (mode : LockMode) : List Deed → Prop
  | intro (doc : Document) {pass shown : List Deed} (hpass : Passed provision doc.device pass)
      (hends : ∀ n ends, .request (.join n) ends ∈ pass → ∀ e ∈ ends, e.2 = .returned true)
      (hshown : Presented mode shown) :
      Enforces provision mode (.request .cursor (.ok provision) :: .request .load (.ok doc) ::
        (pass ++ .act (.count (.enforcement true)) () :: shown))

inductive Falters (cause : String) (provision : ProvisionState) : List Deed → Fault → Prop
  | cursor (f : StorageFault) : Falters cause provision [.request .cursor (.error f)] (.storage f)
  | load (f : StorageFault) : Falters cause provision
      [.request .cursor (.ok provision), .request .load (.error f)] (.storage f)
  | pass (doc : Document) (n : Nat) (ends : List (String × CallbackEnd)) (f : EnforcementFault)
      (h : (PolicyStep.resolve provision doc.device).verdict provision doc.device ends = .error f) :
      Falters cause provision
        [.request .cursor (.ok provision), .request .load (.ok doc),
          .act (.issue provision doc.device (.resolve provision doc.device)) n,
          .request (.join n) ends, .act (.count (.enforcement false)) ()] (.enforcement f)
  | reset {k : List Deed} (h : Enforces provision .criticalError k) (x : String) :
      Falters cause provision (k ++ [.request (.call (.reset cause)) (.error x)]) (.recovery x)
  | report {k : List Deed} (h : Enforces provision .criticalError k) (x : String) :
      Falters cause provision (k ++ [.request (.call (.reset cause)) (.ok ()),
        .request (.call (.reportCritical cause)) (.error x)]) (.recovery x)

theorem Falters.read {cause : String} {p q : ProvisionState} {k : List Deed} {e : Fault}
    (h : Falters cause q k e) (hq : ∀ x r, k = .request .cursor x :: r → x = .ok q → q = p) :
    Falters cause p k e := by
  cases h with
  | cursor f => exact .cursor f
  | load f =>
    obtain rfl := hq _ _ rfl rfl
    exact .load f
  | pass doc n ends f h =>
    obtain rfl := hq _ _ rfl rfl
    exact .pass doc n ends f h
  | reset h x =>
    obtain ⟨doc, hpass, hends, hshown⟩ := h
    obtain rfl := hq _ _ rfl rfl
    exact .reset ⟨doc, hpass, hends, hshown⟩ x
  | report h x =>
    obtain ⟨doc, hpass, hends, hshown⟩ := h
    obtain rfl := hq _ _ rfl rfl
    exact .report ⟨doc, hpass, hends, hshown⟩ x

namespace Program

theorem ends_pass {p : ProvisionState} {d : DeviceState} {l : List Deed}
    {r : Except Fault PolicyStep} (h : Ends (pass p d) l r) :
    (l = [] ∧ PolicyStep.resolve p d = .idle ∧ r = .ok .idle) ∨
      PolicyStep.resolve p d ≠ .idle ∧ ∃ n ends,
        l = [.act (.issue p d (.resolve p d)) n, .request (.join n) ends] ∧
          r = ((PolicyStep.resolve p d).verdict p d ends).mapError .enforcement := by
  unfold pass at h
  dsimp only at h
  split at h
  · rename_i hidle
    obtain ⟨rfl, rfl⟩ := ends_pure.mp h
    exact .inl ⟨rfl, hidle, by rw [hidle]⟩
  · rename_i hidle
    obtain ⟨n, k, rfl, hk⟩ := ends_perform_bind.mp h
    obtain ⟨ends, m, rfl, hm⟩ := ends_request_bind.mp hk
    obtain ⟨rfl, rfl⟩ := ends_ofExcept.mp hm
    exact .inr ⟨hidle, n, ends, rfl, rfl⟩

theorem eq_of_verdict {s t : PolicyStep} {p : ProvisionState} {d : DeviceState}
    {ends : List (String × CallbackEnd)} (h : s.verdict p d ends = .ok t) : t = s := by
  unfold PolicyStep.verdict at h
  split at h
  · exact (Except.ok.inj h).symm
  · cases h

theorem ends_conclude {mode : LockMode} {s : Except Fault PolicyStep} {l : List Deed}
    {r : Except Fault LockMode} (h : Ends (conclude mode s) l r) :
    (∃ e, s = .error e ∧ l = [.act (.count (.enforcement false)) ()] ∧ r = .error e) ∨
      ∃ step k, s = .ok step ∧ l = .act (.count (.enforcement true)) () :: k ∧
        Presented mode k ∧ r = .ok mode := by
  cases s with
  | error e =>
    obtain ⟨x, k, rfl, hk⟩ := ends_perform_bind.mp h
    obtain ⟨rfl, rfl⟩ := ends_throw.mp hk
    exact .inl ⟨e, rfl, rfl, rfl⟩
  | ok step =>
    obtain ⟨x, k, rfl, hk⟩ := ends_perform_bind.mp h
    rcases ends_bind.mp hk with ⟨e, hpresent, -⟩ | ⟨u, a, b, rfl, hpresent, hb⟩
    · cases (ends_present hpresent).1
    · obtain ⟨rfl, rfl⟩ := ends_pure.mp hb
      rw [List.append_nil]
      exact .inr ⟨step, a, rfl, rfl, (ends_present hpresent).2, rfl⟩

theorem ends_enforce_cases {c : Bool} {l : List Deed} {r : Except Fault LockMode}
    (h : Ends (enforce c) l r) :
    (∃ f, l = [.request .cursor (.error f)] ∧ r = .error (.storage f)) ∨
    (∃ p f, l = [.request .cursor (.ok p), .request .load (.error f)] ∧
      r = .error (.storage f)) ∨
    (∃ (p : ProvisionState) (doc : Document) (n : Nat) (ends : List (String × CallbackEnd))
        (f : EnforcementFault), l = [.request .cursor (.ok p), .request .load (.ok doc),
        .act (.issue p doc.device (.resolve p doc.device)) n, .request (.join n) ends,
        .act (.count (.enforcement false)) ()] ∧
      (PolicyStep.resolve p doc.device).verdict p doc.device ends = .error f ∧
        r = .error (.enforcement f)) ∨
    ∃ (p : ProvisionState) (doc : Document),
      Enforces p (if c then .criticalError else .resolve p doc.device) l ∧
        r = .ok (if c then .criticalError else .resolve p doc.device) := by
  rw [enforce_eq] at h
  rcases ends_cursor.mp h with ⟨f, rfl, rfl⟩ | ⟨p, l, rfl, hread⟩
  · exact .inl ⟨f, rfl, rfl⟩
  rcases ends_load.mp hread with ⟨f, rfl, rfl⟩ | ⟨doc, l, rfl, hloaded⟩
  · exact .inr (.inl ⟨p, f, rfl, rfl⟩)
  obtain ⟨s, k, m, rfl, hpass, hconclude⟩ := ends_attempt_bind.mp hloaded
  rcases ends_conclude hconclude with ⟨e, rfl, rfl, rfl⟩ | ⟨step, t, rfl, rfl, hshown, rfl⟩
  · rcases ends_pass hpass with ⟨-, -, hr⟩ | ⟨-, n, ends, rfl, hr⟩
    · cases hr
    · cases hv : (PolicyStep.resolve p doc.device).verdict p doc.device ends with
      | ok t => rw [hv] at hr; cases hr
      | error f =>
        rw [hv] at hr
        obtain rfl := Except.error.inj hr
        exact .inr (.inr (.inl ⟨p, doc, n, ends, f, rfl, hv, rfl⟩))
  · refine .inr (.inr (.inr ⟨p, doc, .intro doc (ends_pass_ok hpass) ?_ hshown, rfl⟩))
    rcases ends_pass hpass with ⟨rfl, -⟩ | ⟨-, n, ends, rfl, hr⟩
    · simp
    · intro k ends' hmem
      simp only [List.mem_cons, reduceCtorEq, Deed.request.injEq, Request.join.injEq,
        List.not_mem_nil, or_false, false_or] at hmem
      obtain ⟨rfl, rfl⟩ := hmem
      have hv := mapError_eq_ok hr.symm
      rw [eq_of_verdict hv] at hv
      exact PolicyStep.verdict_eq_ok_iff.mp hv

theorem enforce_unescalated (c : Bool) : (enforce c).Within .unescalated := by
  rw [enforce_eq]
  refine within_bind (cursor_within trivial) fun p => within_bind (load_within trivial) fun d => ?_
  refine within_bind (within_attempt ?_) fun r => conclude_within _ r
    (by simp [Footprint.unescalated])
    (fun a ha => by cases a <;> simp_all [Footprint.unescalated, Footprint.presenting])
    fun r hr => ?_
  · unfold pass
    dsimp only
    split
    · exact within_pure _
    · exact within_bind (within_perform (by simp [Footprint.unescalated])) fun n =>
        within_bind (within_request trivial) fun _ => within_done _
  · cases r with
    | call k =>
      obtain rfl : k = .exit := hr
      trivial
    | _ => trivial

theorem forceCritical_unescalated (cause : String) : (forceCritical cause).Within .unescalated :=
  within_bind (enforce_unescalated true) fun _ => within_bind (call_within trivial) fun _ =>
    within_bind (call_within trivial) fun _ => within_pure _

theorem advance_unescalated (event : ProvisionEvent) : (advance event).Within .unescalated := by
  refine within_bind (cursor_within trivial) fun p => ?_
  have hact {a : Act} (h : a ≠ .count .criticalFailure) : (perform a).Within .unescalated :=
    within_perform h
  cases p.next event with
  | none => exact within_bind (hact (by simp)) fun _ => within_done _
  | some n =>
    have hentry : (onEntry event n).Within .unescalated := by
      apply (onEntry_within event n).mono
      · rintro _ rfl
        simp [Footprint.unescalated]
      · intro r hr
        cases r with
        | call c =>
          obtain ⟨k, rfl⟩ := hr
          trivial
        | _ => trivial
      · exact fun _ _ _ => trivial
    exact within_bind (write_within trivial) fun _ => within_bind hentry fun _ =>
      within_bind (hact (by simp)) fun _ => within_bind (hact (by simp)) fun _ => within_pure _

theorem escalations_of_unescalated {α : Type} {p q : Program α} {l : List Deed}
    (hp : p.Within .unescalated) (h : Walk p l q) : l.filterMap Deed.escalation? = [] := by
  apply List.filterMap_eq_nil_iff.mpr
  exact fun d hd => Deed.escalation?_of_unescalated (hp.walk (fun _ _ => trivial) h d hd)

theorem escalations_of_enforce {c : Bool} {l : List Deed} {e : Fault}
    (config : RecoveryConfig) (h : Ends (enforce c) l (.error e)) : config.escalations e = [] := by
  rcases ends_enforce_cases h with ⟨f, -, hr⟩ | ⟨p, f, -, hr⟩ | ⟨p, doc, n, ends, f, -, -, hr⟩ |
    ⟨p, doc, -, hr⟩ <;> cases hr <;> rfl

theorem escalations_of_advance {event : ProvisionEvent} {l : List Deed} {e : Fault}
    (config : RecoveryConfig) (h : Ends (advance event) l (.error e)) :
    config.escalations e = [] := by
  rcases ends_advance_error h with ⟨f, -, rfl⟩ | ⟨p, k, -, ⟨-, -, rfl⟩ | ⟨n, -, h⟩⟩
  · rfl
  · rfl
  rcases h with ⟨f, -, rfl⟩ | ⟨u, m, -, hm⟩
  · rfl
  obtain ⟨k, d, -, hd⟩ := onEntry_faithful event n _ _ hm
  unfold Deed.fault? at hd
  split at hd
  · obtain rfl := Option.some.inj hd
    rfl
  · obtain rfl := Option.some.inj hd
    rfl
  · cases hd

theorem escalations_of_critical {config : RecoveryConfig} {cause : String} {l : List Deed}
    {r : Except Fault LockMode} (h : Ends (critical config cause) l r) :
    l.filterMap Deed.escalation? = config.escalationsOf r := by
  cases r with
  | ok mode =>
    obtain ⟨-, k, u, v, hk, rfl⟩ := ends_critical_ok h
    simp [List.filterMap_append, escalations_of_unescalated (enforce_unescalated true) hk,
      Deed.escalation?, Deed.event?, Event.escalation?, RecoveryConfig.escalationsOf]
  | error f =>
    obtain ⟨e, k, x, y, hk, rfl, rfl⟩ := ends_critical_error h
    simp [List.filterMap_append, escalations_of_unescalated (forceCritical_unescalated cause) hk,
      Deed.escalation?, Deed.event?, Event.escalation?, RecoveryConfig.escalationsOf,
      RecoveryConfig.escalations]

theorem escalations_of_transition {config : RecoveryConfig} {value v : Option LockMode}
    {event : ProvisionEvent} {l : List Deed} {r : Except Fault ProvisionState}
    (h : Ends (transition config value event) l (.ok (v, r))) :
    l.filterMap Deed.escalation? = config.escalationsOf r := by
  rcases ends_transition h with ⟨e, he, hr⟩ | ⟨p, n, k, m, rfl, hk, hm⟩
  · obtain ⟨-, rfl⟩ := Prod.mk.inj (Except.ok.inj hr)
    rw [escalations_of_unescalated (advance_unescalated event) he]
    exact (escalations_of_advance config he).symm
  rw [List.filterMap_append, escalations_of_unescalated (advance_unescalated event) hk,
    List.nil_append]
  rcases hm with ⟨mode, hmode, hr⟩ | ⟨e, a, b, ha, rfl, hb⟩
  · obtain ⟨-, rfl⟩ := Prod.mk.inj (Except.ok.inj hr)
    rw [escalations_of_unescalated (enforce_unescalated false) hmode]
    rfl
  have hmoved : (Deed.act (.moveCursor p) ()).escalation? = none := rfl
  rw [List.filterMap_append, escalations_of_unescalated (enforce_unescalated false) ha,
    List.nil_append, List.filterMap_cons_none hmoved]
  rcases hb with ⟨mode, hmode, hr⟩ | ⟨f, hf, hr⟩
  · obtain ⟨-, rfl⟩ := Prod.mk.inj (Except.ok.inj hr)
    rw [escalations_of_critical hmode]
    exact (escalations_of_enforce config ha).symm
  · obtain ⟨-, rfl⟩ := Prod.mk.inj (Except.ok.inj hr)
    rw [escalations_of_critical hf]
    rfl

theorem escalations_of_recorded {config : RecoveryConfig} {p : Program LockMode} {l : List Deed}
    {r : Except Fault (Option LockMode × Except Fault Reply)}
    (hp : ∀ r, Ends p l r → l.filterMap Deed.escalation? = config.escalationsOf r)
    (h : Ends (p >>= recorded) l r) :
    l.filterMap Deed.escalation? = config.escalationsOf (r.bind Prod.snd) := by
  rcases ends_recorded.mp h with ⟨e, he, rfl⟩ | ⟨mode, hk, rfl⟩
  · exact hp _ he
  · exact hp _ hk

end Program

open Program

theorem PolicyJob.escalations {job : PolicyJob} {config : EngineConfig} {value : Option LockMode}
    {l : List Deed} {r : Except Fault (Option LockMode × Except Fault Reply)}
    (h : Ends (job.program config value) l r) :
    l.filterMap Deed.escalation? = config.recovery.escalationsOf (r.bind Prod.snd) := by
  have henforce (r : Except Fault LockMode) (h : Ends (Program.enforce false) l r) :
      l.filterMap Deed.escalation? = config.recovery.escalationsOf r := by
    rw [escalations_of_unescalated (enforce_unescalated false) h]
    cases r with
    | ok m => rfl
    | error e => exact (escalations_of_enforce config.recovery h).symm
  cases job with
  | enforce => exact escalations_of_recorded henforce h
  | critical cause => exact escalations_of_recorded (fun r => escalations_of_critical) h
  | mode =>
    cases value with
    | some m =>
      obtain ⟨rfl, rfl⟩ := ends_pure.mp h
      rfl
    | none => exact escalations_of_recorded henforce h
  | invalidate =>
    obtain ⟨rfl, rfl⟩ := ends_pure.mp h
    rfl
  | transition event =>
    obtain ⟨v, s, hk, rfl⟩ := PolicyJob.ends_transition.mp h
    rw [escalations_of_transition hk]
    cases s <;> rfl

end DeviceLock
