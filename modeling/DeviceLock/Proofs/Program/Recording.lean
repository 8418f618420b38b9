import DeviceLock.Proofs.Program.CriticalPath

namespace DeviceLock

open Program

namespace Program

variable {α : Type} {l : List Deed}

theorem Walk.unique {p q s : Program α} (h : Walk p l q) (hs : Walk p l s) : q = s := by
  induction h with
  | stay p =>
    cases hs
    rfl
  | act x _ ih =>
    cases hs with
    | act _ hs => exact ih hs
  | wait x _ ih =>
    cases hs with
    | wait _ hs => exact ih hs

theorem ends_unique {p : Program α} {r s : Except Fault α} (h : Ends p l r) (hs : Ends p l s) :
    r = s := by
  cases Walk.unique h hs
  rfl

def Passes (l : List Deed) : Prop := .act (.count (.enforcement true)) () ∈ l

theorem not_passes_of_error {c : Bool} {e : Fault} (h : Ends (enforce c) l (.error e)) :
    ¬ Passes l := by
  unfold Passes
  rcases ends_enforce_cases h with ⟨f, rfl, -⟩ | ⟨p, f, rfl, -⟩ | ⟨p, doc, n, ends, f, rfl, -, -⟩ |
    ⟨p, doc, -, hr⟩
  · simp
  · simp
  · simp
  · cases hr

theorem ends_transition_applied {config : RecoveryConfig} {value : Option LockMode}
    {event : ProvisionEvent} {k e : List Deed} {p n : ProvisionState} {mode : LockMode}
    (hk : Ends (advance event) k (.ok (p, n))) (he : Ends (enforce false) e (.ok mode)) :
    Ends (transition config value event) (k ++ e) (.ok (some mode, .ok n)) := by
  refine ends_attempt_bind.mpr ⟨.ok (p, n), k, e, rfl, hk, ?_⟩
  refine ends_attempt_bind.mpr ⟨.ok mode, e, [], (List.append_nil e).symm, he, ?_⟩
  exact ends_pure.mpr ⟨rfl, rfl⟩

theorem ends_transition_rolledBack {config : RecoveryConfig} {value : Option LockMode}
    {event : ProvisionEvent} {k e c : List Deed} {p n : ProvisionState} {f : Fault}
    {mode : LockMode} (hk : Ends (advance event) k (.ok (p, n)))
    (he : Ends (enforce false) e (.error f))
    (hc : Ends (critical config f.message) c (.ok mode)) :
    Ends (transition config value event) (k ++ (e ++ .act (.moveCursor p) () :: c))
      (.ok (some mode, .error f)) := by
  refine ends_attempt_bind.mpr ⟨.ok (p, n), k, _, rfl, hk, ?_⟩
  refine ends_attempt_bind.mpr ⟨.error f, e, _, rfl, he, ?_⟩
  refine ends_perform_bind.mpr ⟨(), c, rfl, ?_⟩
  refine ends_attempt_bind.mpr ⟨.ok mode, c, [], (List.append_nil c).symm, hc, ?_⟩
  exact ends_pure.mpr ⟨rfl, rfl⟩

end Program

namespace PolicyJob

variable {config : EngineConfig} {job : PolicyJob} {cached value : Option LockMode}
  {l : List Deed} {mode : LockMode} {answer : Except Fault Reply}

/-- By its deeds the job has recorded the mode, and answers this: an enforcement that succeeds, also
one for a read, a transition whose own enforcement succeeds, and a critical path that succeeds, also
one of a transition, which is refused then. -/
inductive Records (config : EngineConfig) :
    PolicyJob → List Deed → LockMode → Except Fault Reply → Prop
  | enforced {l : List Deed} {mode : LockMode} (h : Ends (Program.enforce false) l (.ok mode)) :
      Records config .enforce l mode (.ok (.mode mode))
  | read {l : List Deed} {mode : LockMode} (h : Ends (Program.enforce false) l (.ok mode)) :
      Records config .mode l mode (.ok (.mode mode))
  | applied {event : ProvisionEvent} {k e : List Deed} {p n : ProvisionState} {mode : LockMode}
      (hk : Ends (Program.advance event) k (.ok (p, n)))
      (he : Ends (Program.enforce false) e (.ok mode)) :
      Records config (.transition event) (k ++ e) mode (.ok (.provision n))
  | rolledBack {event : ProvisionEvent} {k e c : List Deed} {p n : ProvisionState} {f : Fault}
      {mode : LockMode} (hk : Ends (Program.advance event) k (.ok (p, n)))
      (he : Ends (Program.enforce false) e (.error f))
      (hc : Ends (Program.critical config.recovery f.message) c (.ok mode)) :
      Records config (.transition event) (k ++ (e ++ .act (.moveCursor p) () :: c)) mode (.error f)
  | critical {cause : String} {l : List Deed} {mode : LockMode}
      (h : Ends (Program.critical config.recovery cause) l (.ok mode)) :
      Records config (.critical cause) l mode (.ok (.mode mode))

theorem Records.ends (h : job.Records config l mode answer) (hj : job = .mode → cached = none) :
    Ends (job.program config cached) l (.ok (some mode, answer)) := by
  cases h with
  | enforced h => exact ends_recorded.mpr (.inr ⟨mode, h, rfl⟩)
  | read h =>
    obtain rfl := hj rfl
    exact ends_recorded.mpr (.inr ⟨mode, h, rfl⟩)
  | applied hk he => exact ends_transition.mpr ⟨_, _, ends_transition_applied hk he, rfl⟩
  | rolledBack hk he hc =>
    exact ends_transition.mpr ⟨_, _, ends_transition_rolledBack hk he hc, rfl⟩
  | critical h => exact ends_recorded.mpr (.inr ⟨mode, h, rfl⟩)

theorem records_or_keeps (h : Ends (job.program config cached) l (.ok (value, answer))) :
    (∃ mode, job.Records config l mode answer ∧ value = some mode) ∨ value = cached ∨
      job = .invalidate := by
  cases job with
  | enforce =>
    rcases ends_recorded.mp h with ⟨e, -, hr⟩ | ⟨mode, hmode, hr⟩
    · cases hr
    · cases hr
      exact .inl ⟨mode, .enforced hmode, rfl⟩
  | critical cause =>
    rcases ends_recorded.mp h with ⟨e, -, hr⟩ | ⟨mode, hmode, hr⟩
    · cases hr
    · cases hr
      exact .inl ⟨mode, .critical hmode, rfl⟩
  | mode =>
    cases cached with
    | some m =>
      obtain ⟨-, hr⟩ := ends_pure.mp h
      cases hr
      exact .inr (.inl rfl)
    | none =>
      rcases ends_recorded.mp h with ⟨e, -, hr⟩ | ⟨mode, hmode, hr⟩
      · cases hr
      · cases hr
        exact .inl ⟨mode, .read hmode, rfl⟩
  | invalidate => exact .inr (.inr rfl)
  | transition event =>
    obtain ⟨next, result, hk, hr⟩ := ends_transition.mp h
    cases hr
    rcases Program.ends_transition hk with ⟨e, -, hr⟩ | ⟨p, n, a, b, rfl, ha, ⟨mode, hb, hr⟩ |
      ⟨e, c, d, hc, rfl, ⟨mode, hd, hr⟩ | ⟨f, -, hr⟩⟩⟩
    · cases hr
      exact .inr (.inl rfl)
    · cases hr
      exact .inl ⟨mode, .applied ha hb, rfl⟩
    · cases hr
      exact .inl ⟨mode, .rolledBack ha hc hd, rfl⟩
    · cases hr
      exact .inr (.inl rfl)

end PolicyJob

end DeviceLock
