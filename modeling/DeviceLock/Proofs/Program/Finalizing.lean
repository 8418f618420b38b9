import DeviceLock.Proofs.Program.Discipline
import DeviceLock.Proofs.Program.Jobs

namespace DeviceLock

structure Standing where
  stored : FinalizationState
  told : Bool

namespace Standing

def next : Standing → Deed → Standing
  | _, .request (.write (.finalization t)) (.ok _) => ⟨t, false⟩
  | s, .request (.write (.finalization _)) (.error _) => ⟨s.stored, false⟩
  | s, .request (.call .reportFinalized) x => ⟨s.stored, x.toBool⟩
  | s, _ => s

def Allows (s : Standing) : Request → Prop
  | .write (.finalization t) =>
    s.stored.rank ≤ t.rank ∧ (t = .finalized → s.stored = .unreported ∧ s.told = true)
  | .call .reportFinalized => s.stored = .unreported
  | _ => True

end Standing

def Discipline.finalizing : Discipline Standing where
  acts _ _ := True
  requests := Standing.Allows
  answers
    | s, .load, .ok doc => doc.finalization = s.stored
    | _, _, _ => True
  next := Standing.next

def Footprint.closing : Footprint where
  acts _ := True
  requests
    | .write c => c = .finalization .finalized
    | _ => True

namespace Program

variable {config : RecoveryConfig} {state : FinalizationState}

theorem sendReport_finalizing {s : Standing} (h : state = .unreported → s.stored = .unreported) :
    (sendReport config state).Obeys .finalizing (fun _ _ => True) s := by
  obtain ⟨stored, told⟩ := s
  unfold sendReport
  split
  · trivial
  · rename_i hstate
    obtain rfl : stored = .unreported := h (Decidable.not_not.mp hstate)
    obtain rfl : state = .unreported := Decidable.not_not.mp hstate
    refine obeys_request rfl fun x _ => ?_
    cases x with
    | error m => exact ⟨trivial, fun x _ => by cases x <;> trivial⟩
    | ok u =>
      have hrank : FinalizationState.unreported.rank ≤ FinalizationState.finalized.rank := by decide
      exact obeys_write (c := .finalization .finalized) ⟨hrank, fun _ => ⟨rfl, rfl⟩⟩
        (fun _ => trivial) trivial

theorem finalization_finalizing {s : Standing} {cached : Option FinalizationState}
    {job : FinalizationJob}
    (h : ∀ c, cached = some c → c = s.stored ∨ c = .unfinalized ∧ s.stored = .unreported) :
    (finalization config cached job).Obeys .finalizing (fun _ _ => True) s := by
  have hsome (c : FinalizationState)
      (hc : c = s.stored ∨ c = .unfinalized ∧ s.stored = .unreported) :
      (finalization config (some c) job).Obeys .finalizing (fun _ _ => True) s := by
    have hreport : (sendReport config c).Obeys .finalizing (fun _ _ => True) s := by
      apply sendReport_finalizing
      rintro rfl
      exact (hc.resolve_right fun h => by cases h.1).symm
    cases job with
    | read =>
      rw [finalization_read]
      trivial
    | retry =>
      rw [finalization_retry]
      exact hreport
    | cleared =>
      cases c with
      | unreported => exact hreport
      | finalized => exact hreport
      | unfinalized =>
        change (write (.finalization .unreported) >>= fun _ => sendReport config .unreported).Obeys
          .finalizing _ s
        refine obeys_write ⟨?_, by simp⟩ (fun _ => trivial) (sendReport_finalizing fun _ => rfl)
        rcases hc with hc | ⟨-, hc⟩
        · have hrank : FinalizationState.unfinalized.rank ≤ FinalizationState.unreported.rank := by
            decide
          exact hc ▸ hrank
        · exact Nat.le_of_eq (congrArg FinalizationState.rank hc)
  cases cached with
  | some c => exact hsome c (h c rfl)
  | none =>
    change (load >>= fun doc => finalization config (some doc.finalization) job).Obeys
      .finalizing _ s
    exact obeys_load trivial (fun _ => trivial) fun doc hdoc => hsome _ (.inl hdoc)

theorem sendReport_closing (config : RecoveryConfig) (state : FinalizationState) :
    (sendReport config state).Within .closing := by
  unfold sendReport
  split
  · exact within_pure _
  · rename_i hstate
    obtain rfl : state = .unreported := Decidable.not_not.mp hstate
    refine within_bind (within_request trivial) fun x => ?_
    cases x with
    | error m => exact within_bind (call_within trivial) fun _ => within_pure _
    | ok u =>
      have hw : (do
          write (.finalization .finalized)
          return FinalizationState.finalized).Within .closing :=
        within_bind (write_within rfl) fun _ => within_pure _
      exact hw

theorem finalization_closing {cached : Option FinalizationState} {job : FinalizationJob}
    (hj : job ≠ .cleared) : (finalization config cached job).Within .closing := by
  have hsome (c : FinalizationState) : (finalization config (some c) job).Within .closing := by
    cases job with
    | cleared => exact absurd rfl hj
    | read =>
      rw [finalization_read]
      exact within_pure _
    | retry =>
      rw [finalization_retry]
      exact sendReport_closing config c
  cases cached with
  | some c => exact hsome c
  | none =>
    rw [finalization_none]
    exact within_bind (load_within trivial) fun doc => hsome doc.finalization

end Program

open Program

theorem FinalizationJob.program_finalizing {s : Standing} {cached : Option FinalizationState}
    (config : EngineConfig) (job : FinalizationJob)
    (h : ∀ c, cached = some c → c = s.stored ∨ c = .unfinalized ∧ s.stored = .unreported) :
    (job.program config cached).Obeys .finalizing (fun _ _ => True) s :=
  obeys_bind (finalization_finalizing h) (fun _ _ _ => trivial) fun _ _ _ => trivial

theorem FinalizationJob.program_closing {job : FinalizationJob} (config : EngineConfig)
    (cached : Option FinalizationState) (hj : job ≠ .cleared) :
    (job.program config cached).Within .closing :=
  within_bind (finalization_closing hj) fun _ => within_pure _

end DeviceLock
