import DeviceLock.Proofs.Program.Endings
import DeviceLock.Proofs.Program.Waiting

namespace DeviceLock

def Footprint.presenting : Footprint where
  acts
    | .schedule _ | .cancel => True
    | _ => False
  requests
    | .ask q => q = .userUnlocked
    | .call c => c = .exit
    | _ => False

def Footprint.unissued : Footprint where
  acts
    | .issue _ _ _ => False
    | _ => True
  requests _ := True

namespace Deed

def moved? : Deed → Option ProvisionState
  | act (.moveCursor s) _ => some s
  | _ => none

theorem split_at {j k l r : List Deed} {d : Deed} (h : j ++ l = k ++ d :: r) :
    (∃ t, j = k ++ d :: t) ∨ ∃ t, k = j ++ t ∧ l = t ++ d :: r := by
  rcases List.append_eq_append_iff.mp h with ⟨t, rfl, hl⟩ | ⟨t, rfl, hr⟩
  · exact .inr ⟨t, rfl, hl⟩
  · cases t with
    | nil => exact .inr ⟨[], by simp, by simpa using hr.symm⟩
    | cons e t =>
      obtain ⟨rfl, -⟩ := List.cons.inj hr
      exact .inl ⟨t, rfl⟩

end Deed

namespace Program

variable {α β : Type} {owed : Option Nat} {l : List Deed}

/-- What is owed is a join of the pass issued last, and nothing else comes before it. -/
def Joining : Option Nat → Program α → Prop
  | owed, done _ => owed = none
  | owed, act a next => owed = none ∧ ∀ x, (next x).Joining (Deed.act a x).issued?
  | owed, wait r next => (∀ n, owed = some n → r = .join n) ∧ ∀ x, (next x).Joining none

theorem joining_bind {p : Program α} {f : α → Program β} (hp : p.Joining owed)
    (hf : ∀ a, (f a).Joining none) : (p >>= f).Joining owed := by
  induction p generalizing owed with
  | done r =>
    obtain rfl : owed = none := hp
    cases r with
    | error e => exact rfl
    | ok a => exact hf a
  | act a next ih => exact ⟨hp.1, fun x => ih x (hp.2 x)⟩
  | wait r next ih => exact ⟨hp.1, fun x => ih x (hp.2 x)⟩

theorem joining_attempt {p : Program α} (hp : p.Joining owed) : (attempt p).Joining owed := by
  induction p generalizing owed with
  | done r => exact hp
  | act a next ih => exact ⟨hp.1, fun x => ih x (hp.2 x)⟩
  | wait r next ih => exact ⟨hp.1, fun x => ih x (hp.2 x)⟩

theorem joining_of_within {p : Program α} (hp : p.Within .unissued) : p.Joining none := by
  induction p with
  | done r => rfl
  | act a next ih =>
    refine ⟨rfl, fun x => ?_⟩
    have hnext := ih x (hp.2 x)
    cases a with
    | issue p d s => exact hp.1.elim
    | _ => exact hnext
  | wait r next ih => exact ⟨by simp, fun x => ih x (hp.2 x trivial)⟩

theorem Joining.walk {p q : Program α} (h : p.Joining owed) (hw : Walk p l q)
    (hl : ∀ d ∈ l, d.isRequest = false) :
    ∃ owed', q.Joining owed' ∧
      ∀ n, (owed = some n ∨ ∃ d ∈ l, d.issued? = some n) → owed' = some n := by
  induction hw generalizing owed with
  | stay p => exact ⟨owed, h, fun n hn => hn.elim id (by simp)⟩
  | act x _ ih =>
    obtain ⟨rfl, hnext⟩ := h
    obtain ⟨owed', hq, hissued⟩ := ih (hnext x) fun d hd => hl d (List.mem_cons_of_mem _ hd)
    refine ⟨owed', hq, fun n hn => hissued n ?_⟩
    simpa using hn
  | wait x _ ih => cases hl _ List.mem_cons_self

def conclude (mode : LockMode) : Except Fault PolicyStep → Program LockMode
  | .error e => do
    perform (.count (.enforcement false))
    throw e
  | .ok _ => do
    perform (.count (.enforcement true))
    present mode
    return mode

theorem enforce_eq (c : Bool) :
    enforce c = (do
      let provision ← cursor
      let device := (← load).device
      let r ← attempt (pass provision device)
      conclude (if c then .criticalError else .resolve provision device) r) := by
  unfold enforce conclude
  rfl

theorem present_within (mode : LockMode) : (present mode).Within .presenting := by
  unfold present
  split
  · refine within_bind (within_request (r := .ask .userUnlocked) rfl) fun b => ?_
    split
    · exact within_discard (within_perform trivial)
    · exact within_pure _
  · exact within_bind (within_perform trivial) fun _ => within_discard (within_request rfl)

theorem conclude_within {F : Footprint} (mode : LockMode) (r : Except Fault PolicyStep)
    (hcount : ∀ b, F.acts (.count (.enforcement b)))
    (ha : ∀ a, Footprint.presenting.acts a → F.acts a)
    (hr : ∀ r, Footprint.presenting.requests r → F.requests r) : (conclude mode r).Within F := by
  cases r with
  | error e => exact within_bind (within_perform (hcount _)) fun _ => within_done _
  | ok s =>
    exact within_bind (within_perform (hcount _)) fun _ =>
      within_bind ((present_within mode).mono ha hr fun _ _ _ => trivial) fun _ => within_pure _

theorem conclude_unissued (mode : LockMode) (r : Except Fault PolicyStep) :
    (conclude mode r).Within .unissued :=
  conclude_within mode r (fun _ => trivial) (fun a ha => by cases a <;> trivial) fun _ _ => trivial

theorem pass_joining (p : ProvisionState) (d : DeviceState) : (pass p d).Joining none := by
  unfold pass
  dsimp only
  split
  · rfl
  · refine ⟨rfl, fun n => ⟨fun k hk => ?_, fun _ => rfl⟩⟩
    exact congrArg Request.join (Option.some.inj hk)

theorem enforce_joining (c : Bool) : (enforce c).Joining none := by
  rw [enforce_eq]
  refine joining_bind (joining_of_within (cursor_within trivial)) fun p => ?_
  refine joining_bind (joining_of_within (load_within trivial)) fun d => ?_
  refine joining_bind (joining_attempt (pass_joining p d.device)) fun r => ?_
  exact joining_of_within (conclude_unissued _ r)

theorem reported_unissued (cause : String) (mode : LockMode) : (do
    recovery (.reset cause)
    recovery (.reportCritical cause)
    return mode : Program LockMode).Within .unissued :=
  within_bind (call_within trivial) fun _ => within_bind (call_within trivial) fun _ =>
    within_pure _

theorem settled_unissued (config : RecoveryConfig) (cause : String) (r : Except Fault LockMode) :
    (match r with
      | .ok mode => return mode
      | .error e => do throw (← giveUp config cause e) : Program LockMode).Within .unissued := by
  cases r with
  | ok m => exact within_pure _
  | error e =>
    exact within_bind (within_bind (within_perform trivial) fun _ =>
      within_bind (within_discard (within_request trivial)) fun _ =>
        within_bind (within_discard (within_request trivial)) fun _ => within_pure _) fun _ =>
          within_done _

theorem critical_joining (config : RecoveryConfig) (cause : String) :
    (critical config cause).Joining none := by
  have hforce : (forceCritical cause).Joining none :=
    joining_bind (enforce_joining true) fun _ => joining_of_within (reported_unissued cause _)
  exact joining_bind (joining_attempt hforce) fun r =>
    joining_of_within (settled_unissued config cause r)

theorem advance_unissued (event : ProvisionEvent) : (advance event).Within .unissued := by
  apply (advance_advancing event).mono
  · intro a ha
    cases a <;> trivial
  · exact fun _ _ => trivial
  · exact fun _ _ _ => trivial

theorem transition_joining (config : RecoveryConfig) (value : Option LockMode)
    (event : ProvisionEvent) : (transition config value event).Joining none := by
  refine joining_bind (joining_attempt (joining_of_within (advance_unissued event))) fun r => ?_
  rcases r with e | ⟨p, n⟩
  · exact rfl
  refine joining_bind (joining_attempt (enforce_joining false)) fun r => ?_
  cases r with
  | ok m => exact rfl
  | error e =>
    refine joining_bind (joining_of_within (within_perform trivial)) fun _ => ?_
    refine joining_bind (joining_attempt (critical_joining config e.message)) fun r => ?_
    cases r <;> exact rfl

def Reading (p : Program α) : Prop :=
  ∀ l q, Walk p l q → ∀ k s d step n r, l = k ++ .act (.issue s d step) n :: r →
    ∃ j doc, k = j ++ [.request .cursor (.ok s), .request .load (.ok doc)] ∧ d = doc.device ∧
      step = .resolve s d

theorem reading_of_within {p : Program α} (hp : p.Within .unissued) : p.Reading := by
  rintro _ q hw k s d step n r rfl
  have hmem : .act (.issue s d step) n ∈ k ++ .act (.issue s d step) n :: r := by simp
  exact (hp.walk (fun _ _ => trivial) hw _ hmem).elim

theorem reading_bind {p : Program α} {f : α → Program β} (hp : p.Reading)
    (hf : ∀ a, (f a).Reading) : (p >>= f).Reading := by
  intro l q hw k s d step n r hl
  rcases walk_bind hw with ⟨t, ht, -⟩ | ⟨a, i, m, rfl, hi, hm⟩
  · exact hp _ _ ht k s d step n r hl
  · rcases Deed.split_at hl with ⟨t, rfl⟩ | ⟨t, rfl, rfl⟩
    · exact hp _ _ hi k s d step n t rfl
    · obtain ⟨j, doc, rfl, hd⟩ := hf a _ _ hm t s d step n r rfl
      exact ⟨i ++ j, doc, by simp, hd⟩

theorem reading_attempt {p : Program α} (hp : p.Reading) : (attempt p).Reading := by
  intro l q hw
  obtain ⟨s, hs⟩ := walk_attempt hw
  exact hp _ _ hs

theorem issue_of_pass {p s : ProvisionState} {d e : DeviceState} {mode : LockMode}
    {step : PolicyStep} {n : Nat} {k l r : List Deed} {q : Program LockMode}
    (hw : Walk (attempt (pass p d) >>= conclude mode) l q)
    (hl : l = k ++ .act (.issue s e step) n :: r) :
    k = [] ∧ s = p ∧ e = d ∧ step = .resolve p d := by
  have hmem : .act (.issue s e step) n ∈ l := by simp [hl]
  unfold pass at hw
  dsimp only at hw
  split at hw
  · have hw' := (within_bind (within_attempt (within_pure _)) (conclude_unissued mode)).walk
      (fun _ _ => trivial) hw
    exact (hw' _ hmem).elim
  rcases walk_act.mp hw with ⟨rfl, -⟩ | ⟨x, m, rfl, hm⟩
  · cases hmem
  have hjoin : (attempt (request (.join x) >>= fun ends =>
      ofExcept (((PolicyStep.resolve p d).verdict p d ends).mapError .enforcement)) >>=
        conclude mode).Within .unissued :=
    within_bind (within_attempt (within_bind (within_request trivial) fun _ => within_done _))
      (conclude_unissued mode)
  cases k with
  | nil =>
    cases hl
    exact ⟨rfl, rfl, rfl, rfl⟩
  | cons f k =>
    obtain ⟨rfl, rfl⟩ := List.cons.inj hl
    have hmem : .act (.issue s e step) n ∈ k ++ .act (.issue s e step) n :: r := by simp
    exact (hjoin.walk (fun _ _ => trivial) hm _ hmem).elim

theorem enforce_reading (c : Bool) : (enforce c).Reading := by
  rw [enforce_eq]
  intro l q hw k s d step n r hl
  have hmem : .act (.issue s d step) n ∈ l := by simp [hl]
  rcases walk_cursor hw with rfl | ⟨e, rfl⟩ | ⟨p, m, rfl, hread⟩
  · cases hmem
  · simp at hmem
  rcases walk_load hread with rfl | ⟨e, rfl⟩ | ⟨doc, m, rfl, hloaded⟩
  · simp at hmem
  · simp at hmem
  rcases Deed.split_at (j := [_, _]) hl with ⟨t, ht⟩ | ⟨t, rfl, rfl⟩
  · have hmem : .act (.issue s d step) n ∈ k ++ .act (.issue s d step) n :: t := by simp
    rw [← ht] at hmem
    simp at hmem
  obtain ⟨rfl, rfl, rfl, rfl⟩ := issue_of_pass hloaded rfl
  exact ⟨[], doc, rfl, rfl, rfl⟩

theorem critical_reading (config : RecoveryConfig) (cause : String) :
    (critical config cause).Reading := by
  have hforce : (forceCritical cause).Reading :=
    reading_bind (enforce_reading true) fun _ => reading_of_within (reported_unissued cause _)
  exact reading_bind (reading_attempt hforce) fun r =>
    reading_of_within (settled_unissued config cause r)

theorem transition_reading (config : RecoveryConfig) (value : Option LockMode)
    (event : ProvisionEvent) : (transition config value event).Reading := by
  refine reading_bind (reading_attempt (reading_of_within (advance_unissued event))) fun r => ?_
  rcases r with e | ⟨p, n⟩
  · exact reading_of_within (within_pure _)
  refine reading_bind (reading_attempt (enforce_reading false)) fun r => ?_
  cases r with
  | ok m => exact reading_of_within (within_pure _)
  | error e =>
    refine reading_bind (reading_of_within (within_perform trivial)) fun _ => ?_
    refine reading_bind (reading_attempt (critical_reading config e.message)) fun r => ?_
    cases r <;> exact reading_of_within (within_pure _)

end Program

open Program

theorem PolicyJob.program_joining (config : EngineConfig) (enforced : Option LockMode)
    (job : PolicyJob) : (job.program config enforced).Joining none := by
  cases job with
  | enforce => exact joining_bind (enforce_joining _) fun _ => rfl
  | critical cause => exact joining_bind (critical_joining _ _) fun _ => rfl
  | mode =>
    cases enforced with
    | some m => exact rfl
    | none => exact joining_bind (enforce_joining _) fun _ => rfl
  | invalidate => exact rfl
  | transition event => exact joining_bind (transition_joining _ _ _) fun _ => rfl

theorem PolicyJob.program_reading (config : EngineConfig) (enforced : Option LockMode)
    (job : PolicyJob) : (job.program config enforced).Reading := by
  have hrecorded (mode : LockMode) : (recorded mode).Reading := reading_of_within (within_pure _)
  cases job with
  | enforce => exact reading_bind (enforce_reading _) hrecorded
  | critical cause => exact reading_bind (critical_reading _ _) hrecorded
  | mode =>
    cases enforced with
    | some m => exact hrecorded m
    | none => exact reading_bind (enforce_reading _) hrecorded
  | invalidate => exact reading_of_within (within_pure _)
  | transition event =>
    exact reading_bind (transition_reading _ _ _) fun _ => reading_of_within (within_pure _)

end DeviceLock
