import DeviceLock.Proofs.Program.Jobs

namespace DeviceLock

open Program

def Deed.stores : Deed → Bool
  | request (.write (.device _)) (.ok _) => true
  | _ => false

def Footprint.unstored : Footprint where
  acts _ := True
  requests
    | .write c => c.key ≠ .device
    | _ => True

namespace Program

variable {α β : Type} {owes : Bool} {l : List Deed}

/-- After a device state is stored, the next deed submits an enforcement. -/
def Prompt : Bool → Program α → Prop
  | owes, done _ => owes = false
  | owes, act a next => (owes = true → a = .submit (.policy .enforce)) ∧ ∀ x, (next x).Prompt false
  | owes, wait r next => owes = false ∧ ∀ x, (next x).Prompt (Deed.request r x).stores

theorem prompt_bind {p : Program α} {f : α → Program β} (hp : p.Prompt owes)
    (hf : ∀ a, (f a).Prompt false) : (p >>= f).Prompt owes := by
  induction p generalizing owes with
  | done r =>
    obtain rfl : owes = false := hp
    cases r with
    | error e => exact rfl
    | ok a => exact hf a
  | act a next ih => exact ⟨hp.1, fun x => ih x (hp.2 x)⟩
  | wait r next ih => exact ⟨hp.1, fun x => ih x (hp.2 x)⟩

theorem prompt_of_within {p : Program α} (hp : p.Within .unstored) : p.Prompt false := by
  induction p with
  | done r => rfl
  | act a next ih => exact ⟨by simp, fun x => ih x (hp.2 x)⟩
  | wait r next ih =>
    refine ⟨rfl, fun x => ?_⟩
    have hnext := ih x (hp.2 x trivial)
    cases r with
    | write c =>
      cases c with
      | device s => exact absurd rfl hp.1
      | _ => exact hnext
    | _ => exact hnext

theorem Prompt.walk {p q : Program α} (h : p.Prompt owes) (hw : Walk p l q) :
    ∃ owes', q.Prompt owes' := by
  induction hw generalizing owes with
  | stay _ => exact ⟨owes, h⟩
  | act x _ ih => exact ih (h.2 x)
  | wait x _ ih => exact ih (h.2 x)

theorem await_unstored (j : Job) : (discard (await j)).Within .unstored :=
  within_discard (await_within trivial fun _ => trivial)

theorem persist_prompt (request : DeviceRequest) (p : ProvisionState) (target : DeviceState) :
    (persist request p target).Prompt false := by
  refine ⟨rfl, fun x => ?_⟩
  cases x with
  | error f => exact rfl
  | ok u =>
    have henforce : (discard (await (.policy .enforce))).Prompt true := by
      refine ⟨fun _ => rfl, fun t => ⟨rfl, fun x => ?_⟩⟩
      cases x <;> exact rfl
    change (discard (await (.policy .enforce)) >>= fun _ => _).Prompt true
    refine prompt_bind henforce fun _ => prompt_of_within ?_
    exact within_bind (only_within (await_unstored _)) fun _ =>
      within_bind (only_within (await_unstored _)) fun _ => within_pure _

theorem carryOut_prompt (config : DeviceConfig) (request : DeviceRequest) :
    (carryOut config request).Prompt false := by
  rw [carryOut_eq]
  have heffective : effective.Within .unstored := by
    apply effective_within.mono
    · exact fun _ _ => trivial
    · intro r hr
      cases r <;> trivial
    · exact fun _ _ _ => trivial
  refine prompt_bind (prompt_of_within heffective) fun s => ?_
  split
  · exact rfl
  · exact ⟨by simp, fun _ => rfl⟩
  · exact persist_prompt request s.1 _

end Program

theorem DeviceRequest.program_prompt (config : EngineConfig) (request : DeviceRequest) :
    (request.program config).Prompt false :=
  prompt_bind (carryOut_prompt config.device request) fun _ => rfl

end DeviceLock
