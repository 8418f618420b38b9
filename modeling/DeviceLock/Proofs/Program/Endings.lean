import DeviceLock.Proofs.Program.Jobs

namespace DeviceLock

inductive Collaborator
  | store | platform | capabilities | activator | recovery | reporter
  deriving DecidableEq, Repr

namespace Deed

def collaborator? : Deed → Option Collaborator
  | act a _ =>
    match a with
    | .issue _ _ _ => some .capabilities
    | .schedule _ | .cancel => some .activator
    | _ => none
  | request r _ =>
    match r with
    | .write _ => some .store
    | .ask _ | .call (.platform _) => some .platform
    | .call .exit => some .activator
    | .call .reportFinalized => some .reporter
    | .call _ => some .recovery
    | .cursor | .load | .join _ | .await _ => none

def fault? : Deed → Option Fault
  | request (.write _) (.error f) => some (.storage f)
  | request (.call (.platform c)) (.error m) => some (.platform c m)
  | _ => none

theorem collaborator?_of_entering {d : Deed} (h : d.Within .entering) :
    d.collaborator? = none ∨ d.collaborator? = some .store ∨ d.collaborator? = some .platform := by
  cases d with
  | act a x =>
    obtain rfl : a = .now := h
    exact .inl rfl
  | request r x =>
    cases r with
    | write k => exact .inr (.inl rfl)
    | call k =>
      obtain ⟨k, rfl⟩ := h
      exact .inr (.inr rfl)
    | _ => exact h.elim

theorem collaborator?_of_enforcing {d : Deed} (h : d.Within .enforcing) :
    d.collaborator? ≠ some .store ∧ d.collaborator? ≠ some .recovery := by
  cases d with
  | act a x => cases a <;> simp [collaborator?]
  | request r x =>
    cases r with
    | write k => exact h.elim
    | call k =>
      obtain rfl : k = .exit := h
      simp [collaborator?]
    | _ => simp [collaborator?]

end Deed

inductive Presented (mode : LockMode) : List Deed → Prop
  | left (h : mode.isActive = false) (x : Except String Unit) :
      Presented mode [.act .cancel (), .request (.call .exit) x]
  | deferred (h : mode.isActive = true) : Presented mode [.request (.ask .userUnlocked) false]
  | scheduled (h : mode.isActive = true) (id : Nat) :
      Presented mode [.request (.ask .userUnlocked) true, .act (.schedule mode) id]

inductive Passed (provision : ProvisionState) (device : DeviceState) : List Deed → Prop
  | idle (h : PolicyStep.resolve provision device = .idle) : Passed provision device []
  | joined (h : PolicyStep.resolve provision device ≠ .idle) (pass : Nat)
      (ends : List (String × CallbackEnd)) :
      Passed provision device
        [.act (.issue provision device (.resolve provision device)) pass,
          .request (.join pass) ends]

namespace Program

variable {α β : Type}

/-- When the program ends in a fault, the last thing it did was refused for it. -/
def Faithful (p : Program α) : Prop :=
  ∀ l e, Ends p l (.error e) → ∃ k d, l = k ++ [d] ∧ d.fault? = some e

theorem faithful_bind {p : Program α} {f : α → Program β} (hp : p.Faithful)
    (hf : ∀ a, (f a).Faithful) : (p >>= f).Faithful := by
  intro l e h
  rcases ends_bind.mp h with ⟨e', h', he⟩ | ⟨a, k, m, rfl, -, hm⟩
  · obtain rfl := Except.error.inj he
    exact hp _ _ h'
  · obtain ⟨k', d, rfl, hd⟩ := hf a _ _ hm
    exact ⟨k ++ k', d, by simp, hd⟩

theorem faithful_only {c : Prop} [Decidable c] {p : Program Unit} (hp : p.Faithful) :
    (only c p).Faithful := by
  unfold only
  split
  · exact hp
  · intro l e h
    simp at h

theorem faithful_perform (a : Act) : (perform a).Faithful := by
  intro l e h
  simp at h

theorem faithful_write (c : Change) : (write c).Faithful := by
  intro l e h
  rw [← bind_pure (write c)] at h
  rcases ends_write.mp h with ⟨f, rfl, he⟩ | ⟨u, k, -, hk⟩
  · cases he
    exact ⟨[], _, rfl, rfl⟩
  · simp at hk

theorem faithful_platform (c : PlatformCall) : (platform c).Faithful := by
  intro l e h
  rw [← bind_pure (platform c)] at h
  rcases ends_call.mp h with ⟨f, rfl, he⟩ | ⟨u, k, -, hk⟩
  · cases he
    exact ⟨[], _, rfl, rfl⟩
  · simp at hk

theorem onEntry_faithful (event : ProvisionEvent) (next : ProvisionState) :
    (onEntry event next).Faithful := by
  rw [onEntry_eq]
  exact faithful_bind (faithful_only (faithful_bind (faithful_perform .now) fun _ =>
    faithful_write _)) fun _ =>
      faithful_bind (faithful_only (faithful_platform _)) fun _ =>
        faithful_only (faithful_platform _)

theorem ends_advance_error {event : ProvisionEvent} {l : List Deed} {e : Fault}
    (h : Ends (advance event) l (.error e)) :
    (∃ f, l = [.request .cursor (.error f)] ∧ e = .storage f) ∨
      ∃ p k, l = .request .cursor (.ok p) :: k ∧
        ((p.next event = none ∧ k = [.act (.count (.rejected event)) ()] ∧
            e = .illegalTransition p event) ∨
          ∃ n, p.next event = some n ∧
            ((∃ f, k = [.request (.write (.provision n)) (.error f)] ∧ e = .storage f) ∨
              ∃ u m, k = .request (.write (.provision n)) (.ok u) :: m ∧
                Ends (onEntry event n) m (.error e))) := by
  rcases ends_cursor.mp h with ⟨f, rfl, he⟩ | ⟨p, k, rfl, hk⟩
  · exact .inl ⟨f, rfl, Except.error.inj he⟩
  refine .inr ⟨p, k, rfl, ?_⟩
  cases hnext : p.next event with
  | none =>
    rw [hnext] at hk
    obtain ⟨x, m, rfl, hm⟩ := ends_perform_bind.mp hk
    obtain ⟨rfl, he⟩ := ends_throw.mp hm
    exact .inl ⟨rfl, rfl, Except.error.inj he⟩
  | some n =>
    rw [hnext] at hk
    refine .inr ⟨n, rfl, ?_⟩
    rcases ends_write.mp hk with ⟨f, rfl, he⟩ | ⟨u, m, rfl, hm⟩
    · exact .inl ⟨f, rfl, Except.error.inj he⟩
    refine .inr ⟨u, m, rfl, ?_⟩
    rcases ends_bind.mp hm with ⟨e', hentry, he⟩ | ⟨_, k', m', -, -, hm'⟩
    · rwa [Except.error.inj he]
    · obtain ⟨x, k, -, hk⟩ := ends_perform_bind.mp hm'
      obtain ⟨y, k, -, hk⟩ := ends_perform_bind.mp hk
      simp at hk

theorem ends_advance_ok {event : ProvisionEvent} {l : List Deed} {p n : ProvisionState}
    (h : Ends (advance event) l (.ok (p, n))) :
    p.next event = some n ∧ ∃ u k, Ends (onEntry event n) k (.ok ()) ∧
      l = .request .cursor (.ok p) :: .request (.write (.provision n)) (.ok u) ::
        (k ++ [.act (.moveCursor n) (), .act (.count (.transition event)) ()]) := by
  rcases ends_cursor.mp h with ⟨f, -, he⟩ | ⟨q, k, rfl, hk⟩
  · cases he
  cases hnext : q.next event with
  | none =>
    rw [hnext] at hk
    obtain ⟨x, m, -, hm⟩ := ends_perform_bind.mp hk
    simp at hm
  | some n' =>
    rw [hnext] at hk
    rcases ends_write.mp hk with ⟨f, -, he⟩ | ⟨u, m, rfl, hm⟩
    · cases he
    rcases ends_bind.mp hm with ⟨e, -, he⟩ | ⟨_, k', m', rfl, hentry, hm'⟩
    · cases he
    obtain ⟨x, a, rfl, ha⟩ := ends_perform_bind.mp hm'
    obtain ⟨y, b, rfl, hb⟩ := ends_perform_bind.mp ha
    obtain ⟨rfl, hr⟩ := ends_pure.mp hb
    obtain ⟨rfl, rfl⟩ := Prod.mk.inj (Except.ok.inj hr)
    exact ⟨hnext, u, k', hentry, rfl⟩

theorem onEntry_deeds {event : ProvisionEvent} {next : ProvisionState} {l : List Deed}
    {r : Except Fault Unit} (h : Ends (onEntry event next) l r) : ∀ d ∈ l, d.Within .entering :=
  (onEntry_within event next).walk (fun _ _ => trivial) h

theorem enforce_deeds {c : Bool} {l : List Deed} {r : Except Fault LockMode}
    (h : Ends (enforce c) l r) : ∀ d ∈ l, d.Within .enforcing :=
  (enforce_within c).walk (fun _ _ => trivial) h

theorem critical_deeds {config : RecoveryConfig} {cause : String} {l : List Deed}
    {r : Except Fault LockMode} (h : Ends (critical config cause) l r) :
    ∀ d ∈ l, d.Within .escalating :=
  (critical_within config cause).walk (fun _ _ => trivial) h

theorem ends_enforce_head {c : Bool} {l : List Deed} {r : Except Fault LockMode}
    (h : Ends (enforce c) l r) : ∃ x k, l = .request .cursor x :: k := by
  rcases ends_cursor.mp h with ⟨f, rfl, -⟩ | ⟨p, k, rfl, -⟩
  · exact ⟨_, _, rfl⟩
  · exact ⟨_, _, rfl⟩

theorem ends_present {mode : LockMode} {l : List Deed} {r : Except Fault Unit}
    (h : Ends (present mode) l r) :
    r = .ok () ∧ Presented mode l := by
  unfold present at h
  split at h
  · rename_i hactive
    obtain ⟨b, k, rfl, hk⟩ := ends_request_bind.mp h
    cases b with
    | true =>
      obtain ⟨s, hs, rfl⟩ := ends_discard.mp hk
      obtain ⟨id, rfl, rfl⟩ := ends_perform.mp hs
      exact ⟨rfl, .scheduled hactive id⟩
    | false =>
      obtain ⟨rfl, rfl⟩ := ends_pure.mp hk
      exact ⟨rfl, .deferred hactive⟩
  · rename_i hactive
    obtain ⟨x, k, rfl, hk⟩ := ends_perform_bind.mp h
    obtain ⟨s, hs, rfl⟩ := ends_discard.mp hk
    obtain ⟨y, rfl, rfl⟩ := ends_request.mp hs
    exact ⟨rfl, .left (Bool.not_eq_true _ ▸ hactive) y⟩

theorem ends_pass_ok {p : ProvisionState} {d : DeviceState} {l : List Deed} {step : PolicyStep}
    (h : Ends (pass p d) l (.ok step)) : Passed p d l := by
  unfold pass at h
  dsimp only at h
  split at h
  · rename_i hidle
    obtain ⟨rfl, -⟩ := ends_pure.mp h
    exact .idle hidle
  · rename_i hidle
    obtain ⟨n, k, rfl, hk⟩ := ends_perform_bind.mp h
    obtain ⟨ends, m, rfl, hm⟩ := ends_request_bind.mp hk
    obtain ⟨rfl, -⟩ := ends_ofExcept.mp hm
    exact .joined hidle n ends

theorem ends_enforce {c : Bool} {l : List Deed} {mode : LockMode}
    (h : Ends (enforce c) l (.ok mode)) :
    ∃ p doc k t, l = .request .cursor (.ok p) :: .request .load (.ok doc) ::
        (k ++ .act (.count (.enforcement true)) () :: t) ∧
      mode = (if c then .criticalError else LockMode.resolve p doc.device) ∧
        Passed p doc.device k ∧ Presented mode t := by
  rcases ends_cursor.mp h with ⟨f, -, he⟩ | ⟨p, l₁, rfl, hread⟩
  · cases he
  rcases ends_load.mp hread with ⟨f, -, he⟩ | ⟨doc, l₂, rfl, hloaded⟩
  · cases he
  obtain ⟨s, k, l₃, rfl, hpass, hpassed⟩ := ends_attempt_bind.mp hloaded
  cases s with
  | error e =>
    obtain ⟨x, l₄, -, hthrow⟩ := ends_perform_bind.mp hpassed
    simp at hthrow
  | ok step =>
    obtain ⟨x, l₄, rfl, hcounted⟩ := ends_perform_bind.mp hpassed
    rcases ends_bind.mp hcounted with ⟨e, -, he⟩ | ⟨u, t, l₅, rfl, hpresent, hreturn⟩
    · cases he
    obtain ⟨rfl, hmode⟩ := ends_pure.mp hreturn
    have hmode : mode = if c then .criticalError else LockMode.resolve p doc.device :=
      Except.ok.inj hmode
    have hpresented := (ends_present hpresent).2
    rw [← hmode] at hpresented
    rw [List.append_nil]
    exact ⟨p, doc, k, t, rfl, hmode, ends_pass_ok hpass, hpresented⟩

theorem ends_critical_ok {config : RecoveryConfig} {cause : String} {l : List Deed}
    {mode : LockMode} (h : Ends (critical config cause) l (.ok mode)) :
    mode = .criticalError ∧ ∃ k u v, Ends (enforce true) k (.ok mode) ∧
      l = k ++ [.request (.call (.reset cause)) (.ok u),
        .request (.call (.reportCritical cause)) (.ok v)] := by
  obtain ⟨s, k, m, rfl, hk, hm⟩ := ends_attempt_bind.mp h
  cases s with
  | error e =>
    rcases ends_bind.mp hm with ⟨e', -, he⟩ | ⟨f, a, b, -, -, hb⟩
    · cases he
    · simp at hb
  | ok mode' =>
    obtain ⟨rfl, hr⟩ := ends_pure.mp hm
    obtain rfl := Except.ok.inj hr
    rcases ends_bind.mp hk with ⟨e', -, he⟩ | ⟨mode', a, b, rfl, ha, hb⟩
    · cases he
    rcases ends_call.mp hb with ⟨e', -, he⟩ | ⟨u, b, rfl, hb'⟩
    · cases he
    rcases ends_call.mp hb' with ⟨e', -, he⟩ | ⟨v, b, rfl, hb''⟩
    · cases he
    obtain ⟨rfl, hr⟩ := ends_pure.mp hb''
    obtain rfl := Except.ok.inj hr
    obtain ⟨p, doc, c, t, -, hmode, -⟩ := ends_enforce ha
    exact ⟨by simpa using hmode, a, u, v, ha, by simp⟩

theorem ends_critical_error {config : RecoveryConfig} {cause : String} {l : List Deed}
    {f : Fault} (h : Ends (critical config cause) l (.error f)) :
    ∃ e k x y, Ends (forceCritical cause) k (.error e) ∧
      f = .critical (criticalReason cause e) ∧
        l = k ++ [.act (.count .criticalFailure) (),
          .request (.call (.alarm .criticalEnforcementRetry config.criticalRetry)) x,
          .request (.call (.terminate (criticalReason cause e))) y] := by
  obtain ⟨s, k, m, rfl, hk, hm⟩ := ends_attempt_bind.mp h
  cases s with
  | ok mode => simp at hm
  | error e =>
    change Ends (giveUp config cause e >>= throw) m (.error f) at hm
    simp only [giveUp, bind_assoc] at hm
    obtain ⟨_, a, rfl, ha⟩ := ends_perform_bind.mp hm
    obtain ⟨x, b, rfl, hb⟩ := ends_discard_request.mp ha
    obtain ⟨y, c, rfl, hc⟩ := ends_discard_request.mp hb
    obtain ⟨rfl, hf⟩ := ends_throw.mp hc
    exact ⟨e, k, x, y, hk, Except.error.inj hf, rfl⟩

theorem ends_transition {config : RecoveryConfig} {value : Option LockMode}
    {event : ProvisionEvent} {l : List Deed}
    {r : Except Fault (Option LockMode × Except Fault ProvisionState)}
    (h : Ends (transition config value event) l r) :
    (∃ e, Ends (advance event) l (.error e) ∧ r = .ok (value, .error e)) ∨
      ∃ p n k m, l = k ++ m ∧ Ends (advance event) k (.ok (p, n)) ∧
        ((∃ mode, Ends (enforce false) m (.ok mode) ∧ r = .ok (some mode, .ok n)) ∨
          ∃ e a b, Ends (enforce false) a (.error e) ∧ m = a ++ .act (.moveCursor p) () :: b ∧
            ((∃ mode, Ends (critical config e.message) b (.ok mode) ∧
                r = .ok (some mode, .error e)) ∨
              ∃ f, Ends (critical config e.message) b (.error f) ∧
                r = .ok (value, .error f))) := by
  obtain ⟨s, k, m, rfl, hk, hm⟩ := ends_attempt_bind.mp h
  rcases s with e | ⟨p, n⟩
  · obtain ⟨rfl, rfl⟩ := ends_pure.mp hm
    exact .inl ⟨e, by simpa using hk, rfl⟩
  refine .inr ⟨p, n, k, m, rfl, hk, ?_⟩
  obtain ⟨s, a, b, rfl, ha, hb⟩ := ends_attempt_bind.mp hm
  cases s with
  | ok mode =>
    obtain ⟨rfl, rfl⟩ := ends_pure.mp hb
    exact .inl ⟨mode, by simpa using ha, rfl⟩
  | error e =>
    obtain ⟨x, b, rfl, hb'⟩ := ends_perform_bind.mp hb
    refine .inr ⟨e, a, b, ha, rfl, ?_⟩
    obtain ⟨s, c, d, rfl, hc, hd⟩ := ends_attempt_bind.mp hb'
    cases s with
    | ok mode =>
      obtain ⟨rfl, rfl⟩ := ends_pure.mp hd
      exact .inl ⟨mode, by simpa using hc, rfl⟩
    | error f =>
      obtain ⟨rfl, rfl⟩ := ends_pure.mp hd
      exact .inr ⟨f, by simpa using hc, rfl⟩

theorem walk_transition_stage {config : RecoveryConfig} {value : Option LockMode}
    {event : ProvisionEvent} {l : List Deed}
    {q : Program (Option LockMode × Except Fault ProvisionState)}
    (h : Walk (transition config value event) l q) :
    (∃ s, Walk (advance event) l s) ∨
      ∃ p n k m, l = k ++ m ∧ Ends (advance event) k (.ok (p, n)) ∧
        ((∃ s, Walk (enforce false) m s) ∨
          ∃ e a b s, Ends (enforce false) a (.error e) ∧ m = a ++ .act (.moveCursor p) () :: b ∧
            Walk (critical config e.message) b s) := by
  rcases walk_attempt_bind h with hs | ⟨r, k, m, rfl, hk, hm⟩
  · exact .inl hs
  rcases r with e | ⟨p, n⟩
  · obtain ⟨rfl, -⟩ := walk_done.mp hm
    rw [List.append_nil]
    exact .inl ⟨_, hk⟩
  refine .inr ⟨p, n, k, m, rfl, hk, ?_⟩
  rcases walk_attempt_bind hm with hs | ⟨r, a, b, rfl, ha, hb⟩
  · exact .inl hs
  cases r with
  | ok mode =>
    obtain ⟨rfl, -⟩ := walk_done.mp hb
    rw [List.append_nil]
    exact .inl ⟨_, ha⟩
  | error e =>
    rcases walk_act.mp hb with ⟨rfl, -⟩ | ⟨x, c, rfl, hc⟩
    · rw [List.append_nil]
      exact .inl ⟨_, ha⟩
    change Walk (attempt (critical config e.message) >>= _) c q at hc
    rcases walk_attempt_bind hc with ⟨s, hs⟩ | ⟨r, c, d, rfl, hcritical, hd⟩
    · exact .inr ⟨e, a, c, s, ha, rfl, hs⟩
    · obtain rfl : d = [] := by
        cases r <;> exact (walk_done.mp hd).1
      rw [List.append_nil]
      exact .inr ⟨e, a, c, _, ha, rfl, hcritical⟩

theorem ends_effective {p : ProvisionState} {d : DeviceState} {l : List Deed}
    (h : Ends effective l (.ok (p, d))) :
    ∃ k, l = .request .cursor (.ok p) :: k ∧
      (p = .unprovisioned ∧ k = [.act .pseudo d] ∨
        p ≠ .unprovisioned ∧ ∃ doc, k = [.request .load (.ok doc)] ∧ doc.device = d) := by
  rcases ends_cursor.mp h with ⟨f, -, he⟩ | ⟨q, k, rfl, hk⟩
  · cases he
  split at hk
  · rename_i hq
    obtain ⟨x, a, rfl, ha⟩ := ends_perform_bind.mp hk
    obtain ⟨rfl, hs⟩ := ends_pure.mp ha
    obtain ⟨rfl, rfl⟩ := Prod.mk.inj (Except.ok.inj hs)
    exact ⟨_, rfl, .inl ⟨hq, rfl⟩⟩
  · rename_i hq
    rcases ends_load.mp hk with ⟨f, -, he⟩ | ⟨doc, a, rfl, ha⟩
    · cases he
    obtain ⟨rfl, hs⟩ := ends_pure.mp ha
    obtain ⟨rfl, rfl⟩ := Prod.mk.inj (Except.ok.inj hs)
    exact ⟨_, rfl, .inr ⟨hq, doc, rfl, rfl⟩⟩

theorem ends_recorded {p : Program LockMode} {l : List Deed}
    {r : Except Fault (Option LockMode × Except Fault Reply)} :
    Ends (p >>= recorded) l r ↔
      (∃ e, Ends p l (.error e) ∧ r = .error e) ∨
        ∃ mode, Ends p l (.ok mode) ∧ r = .ok (some mode, .ok (.mode mode)) := by
  rw [ends_bind]
  refine or_congr_right ⟨?_, ?_⟩
  · rintro ⟨mode, k, m, rfl, hk, hm⟩
    obtain ⟨rfl, rfl⟩ := ends_pure.mp hm
    rw [List.append_nil]
    exact ⟨mode, hk, rfl⟩
  · rintro ⟨mode, h, rfl⟩
    exact ⟨mode, l, [], (List.append_nil l).symm, h, ends_pure.mpr ⟨rfl, rfl⟩⟩

end Program

open Program

theorem PolicyJob.ends_transition {config : EngineConfig} {cached : Option LockMode}
    {event : ProvisionEvent} {l : List Deed}
    {r : Except Fault (Option LockMode × Except Fault Reply)} :
    Ends ((PolicyJob.transition event).program config cached) l r ↔
      ∃ v x, Ends (Program.transition config.recovery cached event) l (.ok (v, x)) ∧
        r = .ok (v, x.map .provision) := by
  constructor
  · intro h
    rcases ends_bind.mp h with ⟨f, hk, -⟩ | ⟨⟨v, x⟩, k, m, rfl, hk, hm⟩
    · rcases Program.ends_transition hk with ⟨e, -, he⟩ | ⟨p, n, k, j, -, -, h⟩
      · cases he
      · rcases h with ⟨mode, -, he⟩ | ⟨e, a, c, -, -, ⟨mode, -, he⟩ | ⟨f, -, he⟩⟩ <;> cases he
    · obtain ⟨rfl, rfl⟩ := ends_pure.mp hm
      rw [List.append_nil]
      exact ⟨v, x, hk, rfl⟩
  · rintro ⟨v, x, h, rfl⟩
    exact ends_bind.mpr (.inr ⟨_, l, [], (List.append_nil l).symm, h, ends_pure.mpr ⟨rfl, rfl⟩⟩)

theorem DeviceRequest.ends_program {config : EngineConfig} {request : DeviceRequest}
    {l : List Deed} {r : Except Fault (Unit × Except Fault Reply)}
    (h : Ends (request.program config) l r) :
    ∃ y, Ends (carryOut config.device request) l y ∧ r.bind Prod.snd = y.map .device := by
  rcases ends_bind.mp h with ⟨e, he, rfl⟩ | ⟨d, k, m, rfl, hk, hm⟩
  · exact ⟨.error e, he, rfl⟩
  · obtain ⟨rfl, rfl⟩ := ends_pure.mp hm
    exact ⟨.ok d, by rwa [List.append_nil], rfl⟩

end DeviceLock
