import DeviceLock.Proofs.Program.Presentation

namespace DeviceLock

open Program

namespace Deed

def Obliging : Deed → Prop
  | act _ _ => True
  | request r x =>
    match r, x with
    | .cursor, x => ∃ p, x = .ok p
    | .load, x => ∃ d, x = .ok d
    | .write _, x => x = .ok ()
    | .call _, x => x = .ok ()
    | .ask _, b => b = true
    | .join _, ends => ∀ e ∈ ends, e.2 = .returned true
    | .await _, _ => True

def Served : Deed → Prop
  | request (.ask _) _ => True
  | d => d.Obliging

theorem Obliging.served {d : Deed} (h : d.Obliging) : d.Served := by
  cases d with
  | act a x => trivial
  | request r x => cases r <;> first | exact h | trivial

end Deed

def Footprint.served : Footprint where
  acts _ := True
  requests _ := True
  answers r x := (Deed.request r x).Served

namespace Program

variable {α : Type} {l : List Deed} {Q : Except Fault α → Prop}

theorem Meets.ends {p : Program α} {r : Except Fault α} (h : p.Meets .served Q) (he : Ends p l r)
    (hl : ∀ d ∈ l, d.Served) : Q r := by
  refine (h.walk he fun d hd => ?_).2
  cases d with
  | act a x => trivial
  | request r x => exact hl _ hd

theorem pass_served (p : ProvisionState) (d : DeviceState) :
    (pass p d).Meets .served fun r => ∃ step, r = .ok step := by
  unfold pass
  dsimp only
  split
  · exact ⟨_, rfl⟩
  · refine ⟨trivial, fun n => ⟨trivial, fun ends hends => ⟨.resolve p d, ?_⟩⟩⟩
    rw [PolicyStep.verdict_eq_ok_iff.mpr hends]
    rfl

theorem present_served (mode : LockMode) :
    (present mode).Meets .served fun r => r = .ok () := by
  unfold present
  split
  · refine ⟨trivial, fun b _ => ?_⟩
    cases b with
    | true => exact ⟨trivial, fun _ => rfl⟩
    | false => exact rfl
  · exact ⟨trivial, fun _ => ⟨trivial, fun _ _ => rfl⟩⟩

theorem enforce_served (c : Bool) :
    (enforce c).Meets .served fun r => ∃ mode, r = .ok mode := by
  refine ⟨trivial, ?_⟩
  rintro _ ⟨p, rfl⟩
  refine ⟨trivial, ?_⟩
  rintro _ ⟨doc, rfl⟩
  change (attempt (pass p doc.device) >>= _).Meets _ _
  refine meets_bind.mpr (meets_attempt.mpr ((pass_served p doc.device).imp ?_))
  rintro _ ⟨step, rfl⟩
  refine ⟨trivial, fun _ => ?_⟩
  change (present _ >>= fun _ => pure _).Meets _ _
  refine meets_bind.mpr ((present_served _).imp ?_)
  rintro _ rfl
  exact ⟨_, rfl⟩

theorem onEntry_served (event : ProvisionEvent) (next : ProvisionState) :
    (onEntry event next).Meets .served fun r => r = .ok () := by
  rw [onEntry_eq]
  have honly {c : Prop} [Decidable c] {p : Program Unit}
      (hp : p.Meets .served fun r => r = .ok ()) :
      (only c p).Meets .served fun r => r = .ok () := by
    unfold only
    split
    · exact hp
    · rfl
  have hcall (k : PlatformCall) : (platform k).Meets .served fun r => r = .ok () := by
    refine ⟨trivial, ?_⟩
    rintro _ rfl
    rfl
  have hwrite : (do write (.startTime (← perform .now)) : Program Unit).Meets .served
      fun r => r = .ok () := by
    refine ⟨trivial, fun now => ⟨trivial, ?_⟩⟩
    rintro _ rfl
    rfl
  refine meets_bind.mpr ((honly hwrite).imp ?_)
  rintro _ rfl
  refine meets_bind.mpr ((honly (hcall _)).imp ?_)
  rintro _ rfl
  exact honly (hcall _)

theorem advance_served {event : ProvisionEvent} {r : Except Fault (ProvisionState × ProvisionState)}
    (h : Ends (advance event) l r) (hl : ∀ d ∈ l, d.Served) :
    (∃ s, r = .ok s) ∨ ∃ p : ProvisionState, p.next event = none ∧
      r = .error (.illegalTransition p event) ∧
        l = [.request .cursor (.ok p), .act (.count (.rejected event)) ()] := by
  cases r with
  | ok s => exact .inl ⟨s, rfl⟩
  | error e =>
    refine .inr ?_
    rcases ends_advance_error h with ⟨f, rfl, -⟩ | ⟨p, k, rfl, hk⟩
    · obtain ⟨p, hp⟩ := hl _ List.mem_cons_self
      cases hp
    rcases hk with ⟨hnext, rfl, rfl⟩ | ⟨n, -, ⟨f, rfl, -⟩ | ⟨u, m, rfl, hm⟩⟩
    · exact ⟨p, hnext, rfl, rfl⟩
    · have hwrite : Except.error f = Except.ok () :=
        hl _ (List.mem_cons_of_mem _ List.mem_cons_self)
      cases hwrite
    · have hm' := (onEntry_served event n).ends hm fun d hd =>
        hl d (List.mem_cons_of_mem _ (List.mem_cons_of_mem _ hd))
      cases hm'

theorem forceCritical_served (cause : String) :
    (forceCritical cause).Meets .served fun r => ∃ mode, r = .ok mode := by
  refine meets_bind.mpr ((enforce_served true).imp ?_)
  rintro _ ⟨mode, rfl⟩
  refine ⟨trivial, ?_⟩
  rintro _ rfl
  refine ⟨trivial, ?_⟩
  rintro _ rfl
  exact ⟨mode, rfl⟩

theorem critical_served (config : RecoveryConfig) (cause : String) :
    (critical config cause).Meets .served fun r => ∃ mode, r = .ok mode := by
  refine meets_bind.mpr (meets_attempt.mpr ((forceCritical_served cause).imp ?_))
  rintro _ ⟨mode, rfl⟩
  exact ⟨mode, rfl⟩

theorem transition_served {config : RecoveryConfig} {value : Option LockMode}
    {event : ProvisionEvent} {r : Except Fault (Option LockMode × Except Fault ProvisionState)}
    (h : Ends (transition config value event) l r) (hl : ∀ d ∈ l, d.Served) :
    (∃ p : ProvisionState, p.next event = none ∧
        r = .ok (value, .error (.illegalTransition p event)) ∧
          l = [.request .cursor (.ok p), .act (.count (.rejected event)) ()]) ∨
      ∃ p n k m mode, l = k ++ m ∧ Ends (advance event) k (.ok (p, n)) ∧
        Ends (enforce false) m (.ok mode) ∧ r = .ok (some mode, .ok n) := by
  rcases ends_transition h with ⟨e, he, rfl⟩ | ⟨p, n, k, m, rfl, hk, hm⟩
  · rcases advance_served he hl with ⟨s, hs⟩ | ⟨p, hnext, hs, rfl⟩
    · cases hs
    · obtain rfl := Except.error.inj hs
      exact .inl ⟨p, hnext, rfl, rfl⟩
  rcases hm with ⟨mode, hmode, rfl⟩ | ⟨e, a, b, ha, rfl, -⟩
  · exact .inr ⟨p, n, k, m, mode, rfl, hk, hmode, rfl⟩
  · obtain ⟨mode, hmode⟩ := (enforce_served false).ends ha fun d hd => hl d (by simp [hd])
    cases hmode

end Program

inductive PolicyJob.Outcome (job : PolicyJob) (cached : Option LockMode) :
    List Deed → Option LockMode → Prop
  | left {value : Option LockMode} (hj : job ≠ .enforce) (hv : value = cached ∨ value = none) :
      Outcome job cached [] value
  | rejected (hj : job ≠ .enforce) (p : ProvisionState) (event : ProvisionEvent) :
      Outcome job cached [.request .cursor (.ok p), .act (.count (.rejected event)) ()] cached
  | enforced {k e : List Deed} {mode : LockMode} (hk : ∀ d ∈ k, d.Within .advancing)
      (he : Ends (Program.enforce false) e (.ok mode)) : Outcome job cached (k ++ e) (some mode)

variable {l : List Deed}

theorem PolicyJob.Outcome.pass {job : PolicyJob} {cached : Option LockMode} {mode : LockMode}
    (he : Ends (Program.enforce false) l (.ok mode)) : job.Outcome cached l (some mode) :=
  .enforced (k := []) (by simp) he

theorem PolicyJob.outcome {config : EngineConfig} {cached : Option LockMode} {job : PolicyJob}
    {r : Except Fault (Option LockMode × Except Fault Reply)} (hj : ∀ cause, job ≠ .critical cause)
    (h : Ends (job.program config cached) l r) (hl : ∀ d ∈ l, d.Served) :
    ∃ value reply, r = .ok (value, reply) ∧ job.Outcome cached l value := by
  have hpass (h : Ends (do recorded (← Program.enforce false)) l r) :
      ∃ value reply, r = .ok (value, reply) ∧ job.Outcome cached l value := by
    rcases ends_recorded.mp h with ⟨e, he, -⟩ | ⟨mode, hk, rfl⟩
    · obtain ⟨mode, hmode⟩ := (enforce_served false).ends he hl
      cases hmode
    · exact ⟨_, _, rfl, .pass hk⟩
  cases job with
  | enforce => exact hpass h
  | critical cause => exact absurd rfl (hj cause)
  | mode =>
    cases cached with
    | none => exact hpass h
    | some mode =>
      obtain ⟨rfl, rfl⟩ := ends_pure.mp h
      exact ⟨_, _, rfl, .left (by simp) (.inl rfl)⟩
  | invalidate =>
    obtain ⟨rfl, rfl⟩ := ends_pure.mp h
    exact ⟨_, _, rfl, .left (by simp) (.inr rfl)⟩
  | transition event =>
    obtain ⟨v, x, hk, rfl⟩ := PolicyJob.ends_transition.mp h
    rcases transition_served hk hl with ⟨p, -, hs, rfl⟩ | ⟨p, n, a, b, mode, rfl, ha, hb, hs⟩
    · obtain ⟨rfl, rfl⟩ := Prod.mk.inj (Except.ok.inj hs)
      exact ⟨_, _, rfl, .rejected (by simp) p event⟩
    · obtain ⟨rfl, rfl⟩ := Prod.mk.inj (Except.ok.inj hs)
      refine ⟨_, _, rfl, .enforced (fun d hd => ?_) hb⟩
      exact (advance_advancing event).walk (fun _ _ => trivial) ha d hd

/-- How a policy job answers that starts at the provision state: only a transition can be refused,
and only if it is not admitted there. -/
def PolicyJob.Fate (start : ProvisionState) : PolicyJob → Except Fault Reply → Prop
  | .transition event, r =>
    (∃ n, start.next event = some n ∧ r = .ok (.provision n)) ∨
      start.next event = none ∧ r = .error (.illegalTransition start event)
  | _, r => ∃ a, r = .ok a

theorem PolicyJob.fate {config : EngineConfig} {cached : Option LockMode} {job : PolicyJob}
    {start : ProvisionState} {r : Except Fault (Option LockMode × Except Fault Reply)}
    (h : Ends (job.program config cached) l r) (hl : ∀ d ∈ l, d.Served)
    (hstart : ∀ p k, l = .request .cursor (.ok p) :: k → p = start) :
    ∃ value answer, r = .ok (value, answer) ∧ job.Fate start answer := by
  have hrecorded {p : Program LockMode} (hp : p.Meets .served fun r => ∃ mode, r = .ok mode)
      (h : Ends (p >>= recorded) l r) :
      ∃ value answer, r = .ok (value, answer) ∧ ∃ a, answer = .ok a := by
    rcases ends_recorded.mp h with ⟨e, he, -⟩ | ⟨mode, -, rfl⟩
    · obtain ⟨mode, hmode⟩ := hp.ends he hl
      cases hmode
    · exact ⟨_, _, rfl, _, rfl⟩
  cases job with
  | enforce => exact hrecorded (enforce_served false) h
  | critical cause => exact hrecorded (critical_served _ cause) h
  | mode =>
    cases cached with
    | none => exact hrecorded (enforce_served false) h
    | some mode =>
      obtain ⟨rfl, rfl⟩ := ends_pure.mp h
      exact ⟨_, _, rfl, _, rfl⟩
  | invalidate =>
    obtain ⟨rfl, rfl⟩ := ends_pure.mp h
    exact ⟨_, _, rfl, _, rfl⟩
  | transition event =>
    obtain ⟨v, x, hk, rfl⟩ := PolicyJob.ends_transition.mp h
    rcases transition_served hk hl with ⟨p, hnext, hs, rfl⟩ | ⟨p, n, a, b, mode, rfl, ha, -, hs⟩
    · obtain ⟨rfl, rfl⟩ := Prod.mk.inj (Except.ok.inj hs)
      obtain rfl := hstart p _ rfl
      exact ⟨_, _, rfl, .inr ⟨hnext, rfl⟩⟩
    · obtain ⟨rfl, rfl⟩ := Prod.mk.inj (Except.ok.inj hs)
      obtain ⟨hnext, u, c, -, rfl⟩ := ends_advance_ok ha
      obtain rfl := hstart p _ rfl
      exact ⟨_, _, rfl, .inl ⟨n, hnext, rfl⟩⟩

end DeviceLock
