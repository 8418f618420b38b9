import DeviceLock.Proofs.Program.Discipline

namespace DeviceLock

def Discipline.sealing : Discipline DeviceState where
  acts
    | s, .submit (.finalization .cleared) => s = .cleared
    | _, _ => True
  requests
    | s, .write (.device _) => s ≠ .cleared
    | _, _ => True
  answers
    | s, .load, .ok d => d.device = s
    | _, _, _ => True
  next
    | _, .request (.write (.device t)) (.ok _) => t
    | s, _ => s

theorem DeviceRequest.plan_cleared {p : ProvisionState} {l : Bool} {r : DeviceRequest}
    (h : p ≠ .unprovisioned) : r.plan p .cleared l = .error .deviceCleared := by
  unfold plan
  rw [if_pos ⟨rfl, fun h' => h h'.2.1⟩]

theorem DeviceRequest.plan_persist_ne {p : ProvisionState} {d t : DeviceState} {l : Bool}
    {r : DeviceRequest} (h : r.plan p d l = .ok (.persist t)) :
    p ≠ .unprovisioned ∧ d ≠ .cleared := by
  have hkiosk := (plan_persist h).1
  have hp : p ≠ .unprovisioned := by
    rintro rfl
    cases hkiosk
  refine ⟨hp, ?_⟩
  rintro rfl
  rw [plan_cleared hp] at h
  cases h

theorem Discipline.sealed {l : List Deed} (h : sealing.Along sealing.Admits .cleared l) :
    l.foldl sealing.next .cleared = .cleared := by
  induction l with
  | nil => rfl
  | cons d l ih =>
    obtain ⟨hd, hl⟩ := h
    have hnext : sealing.next .cleared d = .cleared := by
      unfold sealing
      dsimp only
      split
      · exact absurd rfl hd
      · rfl
    rw [hnext] at hl
    rw [List.foldl_cons, hnext]
    exact ih hl

theorem Discipline.sealed_of_submit {s : DeviceState} {l : List Deed} {t : Ticket}
    (h : sealing.Along sealing.Admits s l) (ht : .act (.submit (.finalization .cleared)) t ∈ l) :
    l.foldl sealing.next s = .cleared := by
  obtain ⟨k, r, rfl⟩ := List.append_of_mem ht
  obtain ⟨-, hsubmit, hr⟩ := along_append.mp h
  have hk : k.foldl sealing.next s = .cleared := hsubmit
  rw [hk] at hr
  rw [List.foldl_append, hk, List.foldl_cons]
  exact sealed hr

namespace Program

variable {s : DeviceState}

theorem await_sealing {j : Job} (h : Discipline.sealing.acts s (.submit j)) :
    (discard (await j)).Obeys .sealing (fun s' _ => s' = s) s :=
  ⟨h, fun _ => ⟨trivial, fun x _ => by cases x <;> rfl⟩⟩

theorem only_sealing {c : Prop} [Decidable c] {j : Job}
    (h : c → Discipline.sealing.acts s (.submit j)) :
    (only c (discard (await j))).Obeys .sealing (fun s' _ => s' = s) s := by
  unfold only
  split
  · exact await_sealing (h ‹_›)
  · rfl

theorem effective_sealing (s : DeviceState) :
    effective.Obeys .sealing
      (fun s' r => s' = s ∧ ∀ p d, r = .ok (p, d) → p ≠ .unprovisioned → d = s) s := by
  refine obeys_cursor trivial (fun _ => ⟨rfl, by rintro p d ⟨⟩⟩) fun p _ => ?_
  split
  · rename_i hp
    refine ⟨trivial, fun _ => ⟨rfl, ?_⟩⟩
    rintro _ d ⟨⟩ hne
    exact absurd hp hne
  · refine obeys_load trivial (fun _ => ⟨rfl, by rintro p d ⟨⟩⟩) fun doc hdoc => ⟨rfl, ?_⟩
    rintro _ _ ⟨⟩ -
    exact hdoc

theorem write_sealing (t : DeviceState) (hs : s ≠ .cleared) :
    (write (.device t)).Obeys .sealing (fun s' r => ∀ u, r = .ok u → s' = t) s := by
  refine ⟨hs, fun x _ => ?_⟩
  cases x with
  | error f => rintro u ⟨⟩
  | ok u => exact fun _ _ => rfl

theorem persist_sealing (request : DeviceRequest) (p : ProvisionState) (target : DeviceState)
    (hs : s ≠ .cleared) :
    (persist request p target).Obeys .sealing (fun _ _ => True) s := by
  refine obeys_bind (write_sealing target hs) ?_ fun _ _ _ => trivial
  rintro _ u hu
  obtain rfl := hu u rfl
  refine obeys_bind (await_sealing trivial) ?_ fun _ _ _ => trivial
  rintro _ - rfl
  refine obeys_bind (only_sealing fun _ => trivial) ?_ fun _ _ _ => trivial
  rintro _ - rfl
  refine obeys_bind (only_sealing fun h => h) ?_ fun _ _ _ => trivial
  exact fun _ _ _ => trivial

theorem carryOut_sealing (config : DeviceConfig) (request : DeviceRequest) :
    (carryOut config request).Obeys .sealing (fun _ _ => True) s := by
  rw [carryOut_eq]
  refine obeys_bind (effective_sealing s) ?_ fun _ _ _ => trivial
  rintro _ ⟨p, d⟩ ⟨rfl, hd⟩
  dsimp only
  split
  · trivial
  · exact ⟨trivial, fun _ => trivial⟩
  · rename_i target hplan
    obtain ⟨hp, hne⟩ := DeviceRequest.plan_persist_ne hplan
    obtain rfl := hd p d rfl hp
    exact persist_sealing request p target hne

end Program

theorem DeviceRequest.program_sealing (config : EngineConfig) (request : DeviceRequest)
    (s : DeviceState) :
    (request.program config).Obeys .sealing (fun _ _ => True) s :=
  Program.obeys_bind (Program.carryOut_sealing config.device request) (fun _ _ _ => trivial)
    fun _ _ _ => trivial

open Program

inductive DeviceRequest.Rebuffed : List Deed → Program (Unit × Except Fault Reply) → Prop
  | begun (next : Except StorageFault ProvisionState → Program (Unit × Except Fault Reply)) :
      Rebuffed [] (.wait .cursor next)
  | unplaced (f : StorageFault) :
      Rebuffed [.request .cursor (.error f)] (.done (.error (.storage f)))
  | placed (p : ProvisionState)
      (next : Except StorageFault Document → Program (Unit × Except Fault Reply)) :
      Rebuffed [.request .cursor (.ok p)] (.wait .load next)
  | unread (p : ProvisionState) (f : StorageFault) :
      Rebuffed [.request .cursor (.ok p), .request .load (.error f)] (.done (.error (.storage f)))
  | refused (p : ProvisionState) (doc : Document) :
      Rebuffed [.request .cursor (.ok p), .request .load (.ok doc)]
        (.done (.error (.refused .deviceCleared)))

theorem DeviceRequest.rebuffed {config : EngineConfig} {request : DeviceRequest} {l : List Deed}
    {q : Program (Unit × Except Fault Reply)} (hw : Walk (request.program config) l q)
    (hp : ∀ p k, l = .request .cursor (.ok p) :: k → p ≠ .unprovisioned)
    (hd : ∀ doc, .request .load (.ok doc) ∈ l → doc.device = .cleared) : Rebuffed l q := by
  rcases walk_wait.mp hw with ⟨rfl, rfl⟩ | ⟨x, l, rfl, hread⟩
  · exact .begun _
  cases x with
  | error f =>
    obtain ⟨rfl, rfl⟩ := walk_done.mp hread
    exact .unplaced f
  | ok p =>
    have hne : p ≠ .unprovisioned := hp p l rfl
    change Walk (Program.bind (Program.bind (if p = .unprovisioned then _ else load >>= fun doc =>
      pure (p, doc.device)) _) _) l q at hread
    rw [if_neg hne] at hread
    rcases walk_wait.mp hread with ⟨rfl, rfl⟩ | ⟨x, l, rfl, hplan⟩
    · exact .placed p _
    cases x with
    | error f =>
      obtain ⟨rfl, rfl⟩ := walk_done.mp hplan
      exact .unread p f
    | ok doc =>
      have hd : doc.device = .cleared := hd doc (by simp)
      dsimp only [Program.bind, Program.ofExcept, Except.mapError, pure] at hplan
      rw [hd, DeviceRequest.plan_cleared hne] at hplan
      obtain ⟨rfl, rfl⟩ := walk_done.mp hplan
      exact .refused p doc

end DeviceLock
