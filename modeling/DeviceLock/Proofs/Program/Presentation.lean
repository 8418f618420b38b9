import DeviceLock.Proofs.Program.Endings

namespace DeviceLock

open Program

def Act.Presents : Act → Prop
  | schedule _ | cancel => True
  | _ => False

def Deed.arms : Bool → Deed → Bool
  | _, request .load _ => true
  | _, act (.schedule _) _ | _, act .cancel _ => false
  | armed, request (.ask _) b => armed && b
  | armed, _ => armed

def Footprint.silent : Footprint where
  acts a := ¬ a.Presents
  requests
    | .load | .ask _ => False
    | _ => True

def Footprint.unread : Footprint where
  acts a := ¬ a.Presents
  requests _ := True
  answers
    | .load, _ => False
    | _, _ => True

namespace Program

variable {α β : Type} {l : List Deed} {mode : LockMode} {armed : Bool}

def Presenting : Bool → Program α → Prop
  | _, done _ => True
  | armed, act a next =>
    (a.Presents → armed = true) ∧ ∀ x, (next x).Presenting ((Deed.act a x).arms armed)
  | armed, wait r next => ∀ x, (next x).Presenting ((Deed.request r x).arms armed)

theorem Presenting.arm {p : Program α} (h : p.Presenting false) (armed : Bool) :
    p.Presenting armed := by
  induction p generalizing armed with
  | done r => trivial
  | act a next ih =>
    refine ⟨fun hp => absurd (h.1 hp) (by decide), fun x => ?_⟩
    have hnext := h.2 x
    cases a <;> exact ih x hnext _
  | wait r next ih =>
    intro x
    have hnext := h x
    cases r <;> first | exact ih x hnext _ | exact hnext

theorem presenting_bind {p : Program α} {f : α → Program β} (hp : p.Presenting armed)
    (hf : ∀ a, (f a).Presenting false) : (p >>= f).Presenting armed := by
  induction p generalizing armed with
  | done r =>
    cases r with
    | error e => trivial
    | ok a => exact (hf a).arm armed
  | act a next ih => exact ⟨hp.1, fun x => ih x (hp.2 x)⟩
  | wait r next ih => exact fun x => ih x (hp x)

theorem presenting_attempt {p : Program α} (hp : p.Presenting armed) :
    (attempt p).Presenting armed := by
  induction p generalizing armed with
  | done r => trivial
  | act a next ih => exact ⟨hp.1, fun x => ih x (hp.2 x)⟩
  | wait r next ih => exact fun x => ih x (hp x)

theorem presenting_silent_bind {p : Program α} {f : α → Program β} (hp : p.Within .silent)
    (hf : ∀ a, (f a).Presenting armed) : (p >>= f).Presenting armed := by
  induction p with
  | done r =>
    cases r with
    | error e => trivial
    | ok a => exact hf a
  | act a next ih =>
    refine ⟨fun h => absurd h hp.1, fun x => ?_⟩
    have hnext := ih x (hp.2 x)
    cases a <;> first | exact hnext | exact absurd trivial hp.1
  | wait r next ih =>
    intro x
    have hnext := ih x (hp.2 x trivial)
    cases r <;> first | exact hnext | exact hp.1.elim

theorem presenting_silent {p : Program α} (hp : p.Within .silent) : p.Presenting armed := by
  rw [← bind_pure p]
  exact presenting_silent_bind hp fun _ => trivial

theorem presenting_load_bind {f : Document → Program α} (hf : ∀ d, (f d).Presenting true) :
    (load >>= f).Presenting armed := by
  intro x
  cases x with
  | error e => trivial
  | ok d => exact hf d

theorem Presenting.walk {p q : Program α} (h : p.Presenting armed) (hw : Walk p l q) :
    q.Presenting (l.foldl Deed.arms armed) := by
  induction hw generalizing armed with
  | stay _ => exact h
  | act x _ ih => exact ih (h.2 x)
  | wait x _ ih => exact ih (h x)

theorem Presenting.unread {p : Program α} (h : p.Presenting false) : p.Within .unread := by
  induction p with
  | done r => trivial
  | act a next ih =>
    refine ⟨fun ha => absurd (h.1 ha) (by decide), fun x => ?_⟩
    have hnext := h.2 x
    cases a <;> exact ih x hnext
  | wait r next ih =>
    refine ⟨trivial, fun x hx => ?_⟩
    have hnext := h x
    cases r <;> first | exact ih x hnext | exact hx.elim

theorem advance_silent (event : ProvisionEvent) : (advance event).Within .silent := by
  apply (advance_advancing event).mono
  · intro a ha
    cases a <;> first | exact id | exact ha.elim
  · intro r hr
    cases r <;> trivial
  · exact fun _ _ _ => trivial

theorem arms_enforce {c : Bool} (h : Ends (enforce c) l (.ok mode)) (armed : Bool) :
    l.foldl Deed.arms armed = false := by
  obtain ⟨p, doc, k, t, rfl, -, hpass, hpresent⟩ := ends_enforce h
  cases hpass <;> cases hpresent <;> simp [Deed.arms]

theorem pass_silent (p : ProvisionState) (d : DeviceState) : (pass p d).Within .silent := by
  unfold pass
  dsimp only
  split
  · exact within_pure _
  · exact within_bind (within_perform id) fun _ =>
      within_bind (within_request trivial) fun _ => within_done _

theorem present_presenting (mode : LockMode) : (present mode).Presenting true := by
  unfold present
  split
  · intro b
    cases b with
    | true => exact ⟨fun _ => rfl, fun _ => trivial⟩
    | false => trivial
  · exact ⟨fun _ => rfl, fun _ _ => trivial⟩

theorem enforce_presenting (c : Bool) : (enforce c).Presenting false := by
  refine presenting_silent_bind (cursor_within trivial) fun p => presenting_load_bind fun d => ?_
  refine presenting_silent_bind (within_attempt (pass_silent p d.device)) fun r => ?_
  cases r with
  | error e => exact ⟨fun h => h.elim, fun _ => trivial⟩
  | ok step =>
    refine presenting_silent_bind (within_perform id) fun _ => ?_
    exact presenting_bind (present_presenting _) fun _ => trivial

theorem critical_presenting (config : RecoveryConfig) (cause : String) :
    (critical config cause).Presenting false := by
  have hforce : (forceCritical cause).Presenting false :=
    presenting_bind (enforce_presenting true) fun _ =>
      presenting_silent (within_bind (call_within trivial) fun _ =>
        within_bind (call_within trivial) fun _ => within_pure _)
  refine presenting_bind (presenting_attempt hforce) fun r => ?_
  cases r with
  | ok mode => trivial
  | error e =>
    have hgiveUp : (giveUp config cause e).Within .silent :=
      within_bind (within_perform id) fun _ =>
        within_bind (within_discard (within_request trivial)) fun _ =>
          within_bind (within_discard (within_request trivial)) fun _ => within_pure _
    exact presenting_silent (within_bind hgiveUp fun _ => within_done _)

theorem transition_presenting (config : RecoveryConfig) (enforced : Option LockMode)
    (event : ProvisionEvent) : (transition config enforced event).Presenting false := by
  refine presenting_silent_bind (within_attempt (advance_silent event)) fun r => ?_
  rcases r with e | ⟨p, n⟩
  · trivial
  · refine presenting_bind (presenting_attempt (enforce_presenting false)) fun r => ?_
    cases r with
    | ok mode => trivial
    | error e =>
      refine presenting_silent_bind (within_perform id) fun _ => ?_
      refine presenting_bind (presenting_attempt (critical_presenting config e.message)) fun r => ?_
      cases r <;> trivial

end Program

open Program

theorem PolicyJob.program_presenting (config : EngineConfig) (enforced : Option LockMode)
    (job : PolicyJob) : (job.program config enforced).Presenting false := by
  cases job with
  | enforce => exact presenting_bind (enforce_presenting _) fun _ => trivial
  | critical cause => exact presenting_bind (critical_presenting _ _) fun _ => trivial
  | mode =>
    cases enforced with
    | some m => trivial
    | none => exact presenting_bind (enforce_presenting _) fun _ => trivial
  | invalidate => trivial
  | transition event => exact presenting_bind (transition_presenting _ _ _) fun _ => trivial

end DeviceLock
