import DeviceLock.Proofs.Engine.Solitude
import DeviceLock.Proofs.Engine.TransitionProtocol
import DeviceLock.Proofs.Program.Reliance

namespace DeviceLock

open Program Lane

section Jobs

variable {config : EngineConfig} {cached : Option LockMode} {c c' : Core} {l : List Deed}
  {p s next : ProvisionState} {event : ProvisionEvent}
  {r : Except Fault (Option LockMode × Except Fault Reply)}

theorem PolicyJob.agree {job : PolicyJob} {key : Key} (h : Ends (job.program config cached) l r)
    (ht : c.Tells l c') (hp : key ≠ .provision) (hs : key ≠ .startTime) :
    c'.document.Agree c.document key := by
  refine ht.agree fun k u hmem => ?_
  have hwithin : k.key = .provision ∨ k.key = .startTime :=
    (PolicyJob.program_within config cached job).walk (fun _ _ => trivial) h _ hmem
  rcases hwithin with hk | hk <;> simp [hk, hp.symm, hs.symm]

theorem PolicyJob.device_of_load {job : PolicyJob} (h : Ends (job.program config cached) l r)
    (ht : c.Tells l c') :
    ∀ d, .request .load (.ok d) ∈ l → d.device = c.document.device := by
  intro d hd
  have hwithin := (PolicyJob.program_within config cached job).walk (fun _ _ => trivial) h
  obtain ⟨c₁, hspares, hfits⟩ := (story_of_tells ht : requests.Story c l c').fits
    (fun d hd => not_owns_of_within (by decide) (hwithin d hd)) hd
  obtain rfl : d = c₁.document := hfits
  exact hspares.2

theorem PolicyJob.enforce_outcome (h : Ends (PolicyJob.enforce.program config cached) l r)
    (hc : c.Stands p s) (ht : c.Tells l c') :
    c'.Stands p s ∧
      ((∃ a, r = .ok (some (.resolve p c.document.device), .ok a)) ∨
        (∃ e, r = .error e) ∧ ∃ d ∈ l, ¬ d.Served) := by
  have hload := PolicyJob.device_of_load h ht
  have hstory : policy.Story c l c' := story_of_tells ht
  rcases ends_recorded.mp h with ⟨e, he, rfl⟩ | ⟨mode, hk, rfl⟩
  · refine ⟨hc.still hstory fun d hd => not_owns_of_enforcing (enforce_deeds he d hd),
      .inr ⟨⟨e, rfl⟩, ?_⟩⟩
    by_contra hserved
    obtain ⟨mode, hmode⟩ := (enforce_served false).ends he (by simpa using hserved)
    cases hmode
  · refine ⟨hc.still hstory fun d hd => not_owns_of_enforcing (enforce_deeds hk d hd), .inl ?_⟩
    obtain ⟨q, d, k, t, rfl, rfl, -⟩ := Program.ends_enforce hk
    obtain rfl : q = p := Except.ok.inj (hc.read hstory)
    exact ⟨_, by rw [if_neg Bool.false_ne_true, hload d (by simp)]⟩

theorem position_of_advance_error {e : Fault} (hs : policy.Story c l c')
    (h : Ends (advance event) l (.error e)) : c'.position = c.position := by
  rcases ends_advance_error h with ⟨f, rfl, -⟩ | ⟨p, k, rfl, hk⟩
  · exact (hs.spares (by simp [Owns])).1
  obtain ⟨rfl, c₁, h₁, hs⟩ := Core.Stands.of_cursor hs
  rcases hk with ⟨-, rfl, -⟩ | ⟨next, -, ⟨f, rfl, -⟩ | ⟨u, a, rfl, ha⟩⟩
  · exact (h₁.still hs (by simp [Owns])).position
  · exact (h₁.still hs (by simp [Owns])).position
  · obtain ⟨c₂, h₂, hs⟩ := h₁.write hs
    exact (h₂.still hs fun d hd => not_owns_of_entering (onEntry_deeds ha d hd)).position

theorem PolicyJob.transition_outcome
    (h : Ends ((PolicyJob.transition event).program config cached) l r) (ht : c.Tells l c')
    (hnext : c.position.next event = some next) :
    r = .ok (some (.resolve next c.document.device), .ok (.provision next)) ∧
        c'.Stands next next ∨
      (∃ v e, r = .ok (v, .error e)) ∧ c'.position = c.position ∧ ∃ d ∈ l, ¬ d.Served := by
  have hload := PolicyJob.device_of_load h ht
  obtain ⟨v, x, htransition, rfl⟩ := PolicyJob.ends_transition.mp h
  have hrefused {e : Fault} (hx : x = .error e) : ∃ d ∈ l, ¬ d.Served := by
    by_contra hserved
    subst hx
    have hserved : ∀ d ∈ l, d.Served := by simpa using hserved
    rcases transition_served htransition hserved with ⟨p, hp, -, rfl⟩ | ⟨_, _, _, _, _, -, -, -, hr⟩
    · cases ht with
      | cons hfits _ =>
        obtain rfl : p = c.position := hfits
        cases hp.symm.trans hnext
    · cases hr
  have hstory : policy.Story c l c' := story_of_tells ht
  rcases Program.ends_transition htransition with ⟨e, he, hr⟩ | ⟨p, n, k, m, rfl, hk, hm⟩
  · obtain ⟨rfl, rfl⟩ := Prod.mk.inj (Except.ok.inj hr)
    exact .inr ⟨⟨_, e, rfl⟩, position_of_advance_error hstory he, hrefused rfl⟩
  have hpn := (ends_advance_ok hk).1
  rcases hm with ⟨mode, hmode, hr⟩ | ⟨e, a, b, ha, rfl, hb⟩
  · obtain ⟨rfl, rfl⟩ := Prod.mk.inj (Except.ok.inj hr)
    obtain ⟨rfl, c₁, h₁, hs⟩ := TransitionEnd.stands_of_advance_ok hstory hk
    obtain rfl : n = next := Option.some.inj (hpn.symm.trans hnext)
    have hstands := h₁.still hs fun d hd => not_owns_of_enforcing (enforce_deeds hmode d hd)
    obtain ⟨q, d, k', t, rfl, rfl, -⟩ := Program.ends_enforce hmode
    obtain rfl : q = n := Except.ok.inj (h₁.read hs)
    refine .inl ⟨?_, hstands⟩
    rw [if_neg Bool.false_ne_true, hload d (by simp)]
    rfl
  · rcases hb with ⟨mode, hb, hr⟩ | ⟨f, hb, hr⟩
    all_goals
      obtain ⟨rfl, rfl⟩ := Prod.mk.inj (Except.ok.inj hr)
      obtain ⟨rfl, -, hstands⟩ := TransitionEnd.stands_of_rollback hstory hk ha hb
      exact .inr ⟨⟨_, _, rfl⟩, hstands.position, hrefused rfl⟩

end Jobs

/-- What an operation is to come to: its answer, where the cursor is to stand, and what is to be
stored, the start time apart. -/
structure Aim where
  reply : Reply
  position : ProvisionState
  document : Document

namespace Aim

structure Alike (a b : Aim) : Prop where
  reply : a.reply = b.reply
  position : a.position = b.position
  stored : ∀ key, key ≠ .startTime → a.document.Agree b.document key

structure Reached (a : Aim) (x : Except Fault Reply) (s : Bench) : Prop where
  answer : x = .ok a.reply
  cursor : s.core.cursor = some a.position
  stored : ∀ key, key ≠ .startTime → s.core.document.Agree a.document key
  mode : s.value .policy = some (.resolve a.position a.document.device)

variable {a b : Aim} {x : Except Fault Reply} {s : Bench}

theorem Alike.refl (a : Aim) : a.Alike a := ⟨rfl, rfl, fun _ _ => .refl _ _⟩

theorem Alike.trans {c : Aim} (h : a.Alike b) (h' : b.Alike c) : a.Alike c where
  reply := h.reply.trans h'.reply
  position := h.position.trans h'.position
  stored := fun key ht => (h.stored key ht).trans (h'.stored key ht)

theorem Reached.alike (h : a.Reached x s) (hab : a.Alike b) : b.Reached x s where
  answer := by rw [h.answer, hab.reply]
  cursor := by rw [h.cursor, hab.position]
  stored := fun key ht => (h.stored key ht).trans (hab.stored key ht)
  mode := by
    have hdevice : a.document.device = b.document.device := hab.stored .device (by decide)
    rw [h.mode, hab.position, hdevice]

end Aim

def DeviceRequest.aim (request : DeviceRequest) (c : Core) : Aim where
  reply := .device request.target
  position := .succeeded
  document := (Change.device request.target).apply <|
    if c.position = .succeeded then c.document else (Change.provision .succeeded).apply c.document

namespace Operation

/-- The aim of an event that is admitted, and of a lock or an unlock that is while there is a
kiosk. -/
inductive Aims (config : DeviceConfig) (c : Core) : Operation → Aim → Prop
  | event {event : ProvisionEvent} {next : ProvisionState} (h : c.position.next event = some next) :
      Aims config c (.event event) ⟨.provision next, next, (Change.provision next).apply c.document⟩
  | request {request : DeviceRequest} {plan : DeviceRequest.Plan} (hr : request ≠ .clear)
      (hk : c.position.hasKiosk = true)
      (h : request.plan c.position c.document.device config.lenientClear = .ok plan) :
      Aims config c (.request request) (request.aim c)

def Admitted (config : DeviceConfig) (c : Core) (op : Operation) : Prop :=
  ∃ a, op.Aims config c a

structure Attempted (op : Operation) (c c' : Core) : Prop where
  position : c'.position = c.position
  device : c'.document.device = c.document.device ∨
    ∃ request, op = .request request ∧ c'.document.device = request.target
  provision : c.position = .succeeded → c'.document.provision = c.document.provision
  others : ∀ key, key ≠ .provision → key ≠ .device → key ≠ .startTime →
    c'.document.Agree c.document key

inductive Outcome (D : Deed → Prop) (op : Operation) (a : Aim) (c : Core) :
    Except Fault Reply → Bench → Prop
  | reached {x : Except Fault Reply} {s : Bench} (h : a.Reached x s) : Outcome D op a c x s
  | failed {e : Fault} {s : Bench} (h : op.Attempted c s.core) (hD : ¬ ∀ d, D d → d.Served) :
      Outcome D op a c (.error e) s

variable {D : Deed → Prop} {config : DeviceConfig} {op : Operation} {a b : Aim} {c c₁ c' : Core}
  {x : Except Fault Reply} {s : Bench} {request : DeviceRequest} {event : ProvisionEvent}

namespace Attempted

theorem of_agree (hp : c'.position = c.position)
    (hagree : ∀ key, key ≠ .startTime → c'.document.Agree c.document key) :
    op.Attempted c c' where
  position := hp
  device := .inl (hagree .device (by decide))
  provision := fun _ => hagree .provision (by decide)
  others := fun key _ _ ht => hagree key ht

theorem trans (h : op.Attempted c c₁) (h' : op.Attempted c₁ c') : op.Attempted c c' where
  position := h'.position.trans h.position
  device := h'.device.elim (fun he => h.device.imp he.trans fun ⟨r, hr, hd⟩ => ⟨r, hr, he.trans hd⟩)
    .inr
  provision := fun hp => (h'.provision (h.position.trans hp)).trans (h.provision hp)
  others := fun key hp hd ht => (h'.others key hp hd ht).trans (h.others key hp hd ht)

theorem event_alike (h : (Operation.event event).Attempted c c') (next : ProvisionState) {key : Key}
    (ht : key ≠ .startTime) :
    ((Change.provision next).apply c'.document).Agree ((Change.provision next).apply c.document)
      key := by
  have hdevice : c'.document.device = c.document.device := by
    rcases h.device with hd | ⟨r, hr, -⟩
    · exact hd
    · cases hr
  by_cases hp : key = .provision
  · subst hp
    rfl
  refine (Document.apply_touches _ _ hp).trans (.trans ?_ (Document.apply_touches _ _ hp).symm)
  by_cases hd : key = .device
  · subst hd
    exact hdevice
  · exact h.others key hp hd ht

theorem request_alike (h : (Operation.request request).Attempted c c') :
    (request.aim c').Alike (request.aim c) := by
  refine ⟨rfl, rfl, fun key ht => ?_⟩
  by_cases hd : key = .device
  · subst hd
    rfl
  refine (Document.apply_touches _ _ hd).trans (.trans ?_ (Document.apply_touches _ _ hd).symm)
  rw [h.position]
  by_cases hp : key = .provision
  · subst hp
    split
    · exact h.provision ‹_›
    · rfl
  · split
    · exact h.others key hp hd ht
    · exact (Document.apply_touches _ _ hp).trans
        ((h.others key hp hd ht).trans (Document.apply_touches _ _ hp).symm)

theorem aims (h : op.Attempted c c') (ha : op.Aims config c a) :
    ∃ b, op.Aims config c' b ∧ b.Alike a := by
  cases ha with
  | event hnext =>
    refine ⟨_, .event (h.position ▸ hnext), rfl, rfl, fun key ht => h.event_alike _ ht⟩
  | @request request plan hr hk hplan =>
    have hk' : c'.position.hasKiosk = true := h.position ▸ hk
    obtain ⟨hdevice, rfl⟩ := (DeviceRequest.plan_eq_ok_iff hk).mp hplan
    have hdevice' : c'.document.device ≠ .cleared := by
      rcases h.device with hd | ⟨r, hr', hd⟩
      · rwa [hd]
      · cases hr'
        rw [hd]
        cases request <;> first | decide | exact absurd rfl hr
    exact ⟨_, .request hr hk' ((DeviceRequest.plan_eq_ok_iff hk').mpr ⟨hdevice', rfl⟩),
      h.request_alike⟩

end Attempted

theorem Outcome.of_attempted (h : op.Outcome D b c₁ x s) (hc : op.Attempted c c₁)
    (hab : b.Alike a) : op.Outcome D a c x s := by
  cases h with
  | reached h => exact .reached (h.alike hab)
  | failed h hD => exact .failed (hc.trans h) hD

theorem Outcome.settle {lane : Lane} (h : op.Outcome D a c x s) (hl : .policy ≠ lane)
    (r : Except Fault (lane.Value × Except Fault Reply)) :
    op.Outcome D a c x (s.settle lane r) := by
  cases h with
  | reached h =>
    obtain ⟨hanswer, hcursor, hstored, hmode⟩ := h
    exact .reached ⟨hanswer, by rwa [Bench.settle_core], by rwa [Bench.settle_core],
      by rwa [Bench.settle_of_ne _ hl]⟩
  | failed h hD => exact .failed (by rwa [Bench.settle_core]) hD

end Operation

section Operations

variable {D : Deed → Prop} {s s' : Bench} {l : List Deed} {t : Ticket} {x : Except Fault Reply}
  {p n next : ProvisionState} {event : ProvisionEvent} {request : DeviceRequest}

theorem Executes.of_policy {job : PolicyJob}
    (h : Executes D s (.act (.submit (.policy job)) t :: .request (.await t) x :: l) s') :
    ∃ k r c, Ends (job.program s.config (s.value .policy)) k r ∧ s.core.Tells k c ∧
      (∀ d ∈ k, D d) ∧ x = r.bind Prod.snd ∧
        Executes D (Bench.settle { s with core := c } .policy r) l s' := by
  have hjob : Executes D s
      (.act (.submit (Lane.policy.job job)) t :: .request (.await t) x :: l) s' := h
  obtain ⟨k, r, s₁, hp, hk, rfl, hl⟩ := hjob.of_job
  have hwithin : (job.program s.config (s.value .policy)).Within .direct :=
    direct_of_within (PolicyJob.program_within _ _ job) (fun _ => id) (fun _ => id)
      fun _ _ => trivial
  obtain ⟨ht, hv, hD⟩ := hk.tells (hwithin.walk (fun _ _ => trivial) hp)
  have hs₁ : s₁ = { s with core := s₁.core } := Bench.ext hk.config rfl hv
  exact ⟨k, r, s₁.core, hp, ht, hD, rfl, hs₁ ▸ hl⟩

theorem Executes.enforces
    (h : Executes D s (.act (.submit (.policy .enforce)) t :: .request (.await t) x :: l) s')
    (hs : s.core.Stands p n) :
    ∃ s₁, Executes D s₁ l s' ∧ s₁.core.Stands p n ∧
      (∀ key, key ≠ .provision → key ≠ .startTime →
        s₁.core.document.Agree s.core.document key) ∧
      ((∃ a, x = .ok a) ∧ s₁.value .policy = some (.resolve p s.core.document.device) ∨
        (∃ e, x = .error e) ∧ ¬ ∀ d, D d → d.Served) := by
  obtain ⟨k, r, c, hk, ht, hD, rfl, hl⟩ := h.of_policy
  obtain ⟨hstands, hr⟩ := PolicyJob.enforce_outcome hk hs ht
  refine ⟨_, hl, by simpa using hstands, fun key hp hs => ?_, ?_⟩
  · simpa using PolicyJob.agree hk ht hp hs
  · rcases hr with ⟨a, rfl⟩ | ⟨⟨e, rfl⟩, d, hd, hserved⟩
    · exact .inl ⟨⟨a, rfl⟩, Bench.settle_ok _ .policy _ _⟩
    · exact .inr ⟨⟨e, rfl⟩, fun hall => hserved (hall d (hD d hd))⟩

theorem Executes.transits
    (h : Executes D s
      (.act (.submit (.policy (.transition event))) t :: .request (.await t) x :: l) s')
    (hnext : s.core.position.next event = some next) :
    ∃ s₁, Executes D s₁ l s' ∧
      (∀ key, key ≠ .provision → key ≠ .startTime →
        s₁.core.document.Agree s.core.document key) ∧
      (x = .ok (.provision next) ∧ s₁.core.Stands next next ∧
          s₁.value .policy = some (.resolve next s.core.document.device) ∨
        (∃ e, x = .error e) ∧ s₁.core.position = s.core.position ∧ ¬ ∀ d, D d → d.Served) := by
  obtain ⟨k, r, c, hk, ht, hD, rfl, hl⟩ := h.of_policy
  refine ⟨_, hl, fun key hp hs => ?_, ?_⟩
  · simpa using PolicyJob.agree hk ht hp hs
  · rcases PolicyJob.transition_outcome hk ht hnext with
      ⟨rfl, hstands⟩ | ⟨⟨v, e, rfl⟩, hposition, d, hd, hserved⟩
    · exact .inl ⟨rfl, by simpa using hstands, Bench.settle_ok _ .policy _ _⟩
    · exact .inr ⟨⟨e, rfl⟩, by simpa using hposition, fun hall => hserved (hall d (hD d hd))⟩

theorem Core.Stands.agree {c c' : Core} (h : c'.Stands p n)
    (hagree : ∀ key, key ≠ .provision → key ≠ .startTime → c'.document.Agree c.document key) :
    ∀ key, key ≠ .startTime → c'.document.Agree ((Change.provision n).apply c.document) key := by
  intro key ht
  by_cases hp : key = .provision
  · subst hp
    exact h.stored
  · exact (hagree key hp ht).trans (Document.apply_touches _ (.provision n) hp).symm

theorem raise_outcome (hnext : s.core.position.next event = some next)
    (h : Ends (raise event) l x) (hx : Executes D s l s') :
    (Operation.event event).Outcome D
      ⟨.provision next, next, (Change.provision next).apply s.core.document⟩ s.core x s' := by
  obtain ⟨t, rfl⟩ := ends_await.mp h
  obtain ⟨s₁, hl, hagree, hr⟩ := hx.transits hnext
  obtain rfl := hl.of_nil
  rcases hr with ⟨rfl, hstands, hvalue⟩ | ⟨⟨e, rfl⟩, hposition, hserved⟩
  · exact .reached ⟨rfl, hstands.cursor, hstands.agree hagree, hvalue⟩
  · refine .failed ⟨hposition, .inl (hagree .device (by decide) (by decide)), fun hp => ?_,
      fun key hp _ hs => hagree key hp hs⟩ hserved
    rw [hp] at hnext
    cases event <;> cases hnext

theorem success_outcome {r : Except Fault DeviceState} (hr : request ≠ .clear)
    (hkiosk : p.hasKiosk = true) (hs : s.core.Stands p n)
    (hdevice : s.core.document.device = request.target)
    (hvalue : s.value .policy = some (.resolve p request.target))
    (h : Ends (if request ≠ .clear ∧ p = .kioskProvisioned then
        discard (await (.policy (.transition .success))) >>= fun _ => pure request.target
      else pure request.target) l r) (hx : Executes D s l s') :
    (Operation.request request).Outcome D (request.aim s.core) s.core (r.map .device) s' := by
  have hdone (d : Document) (hd : d.device = request.target) :
      (Change.device request.target).apply d = d := by
    rw [← hd]
    rfl
  split at h
  · rename_i hsuccess
    obtain rfl := hsuccess.2
    have haim : (request.aim s.core).document =
        (Change.provision .succeeded).apply s.core.document := by
      rw [DeviceRequest.aim, if_neg (by simp [hs.position])]
      exact hdone _ hdevice
    obtain ⟨t, x, rfl, rfl⟩ := ends_reply h
    have hnext : s.core.position.next .success = some .succeeded := by
      rw [hs.position]
      rfl
    obtain ⟨s₁, hx, hagree, h₁⟩ := hx.transits hnext
    obtain rfl := hx.of_nil
    rcases h₁ with ⟨rfl, hstands, hvalue⟩ | ⟨⟨e, rfl⟩, hposition, hserved⟩
    · refine .reached ⟨rfl, hstands.cursor, haim ▸ hstands.agree hagree, ?_⟩
      rw [hvalue, hdevice]
      rfl
    · exact .failed ⟨hposition, .inl (hagree .device (by decide) (by decide)),
        by simp [hs.position], fun key hp _ ht => hagree key hp ht⟩ hserved
  · rename_i hsuccess
    obtain ⟨rfl, rfl⟩ := ends_pure.mp h
    obtain rfl := hx.of_nil
    obtain rfl : p = .succeeded := by
      cases p <;> first | rfl | exact absurd ⟨hr, rfl⟩ hsuccess | cases hkiosk
    have haim : (request.aim s'.core).document = s'.core.document := by
      rw [DeviceRequest.aim, if_pos hs.position]
      exact hdone _ hdevice
    exact .reached ⟨rfl, hs.cursor, fun key _ => haim ▸ .refl _ _, hvalue⟩

theorem persist_outcome {r : Except Fault DeviceState} (hr : request ≠ .clear)
    (hkiosk : p.hasKiosk = true) (hs : s.core.Stands p n)
    (h : Ends (persist request p request.target) l r) (hx : Executes D s l s') :
    (Operation.request request).Outcome D (request.aim s.core) s.core (r.map .device) s' := by
  have htarget : request.target ≠ .cleared := by
    cases request <;> first | decide | exact absurd rfl hr
  unfold persist at h
  simp only [only_bind, if_neg htarget] at h
  rcases ends_write.mp h with ⟨e, rfl, rfl⟩ | ⟨u, k, rfl, hk⟩
  · obtain ⟨hD, -, hx⟩ := hx.of_deed trivial
    obtain rfl := hx.of_nil
    refine .failed (.of_agree rfl fun _ _ => .refl _ _) fun hall => ?_
    exact not_served_of_write (l := [_]) (by simpa using hall _ hD) List.mem_cons_self
  obtain ⟨-, -, hx⟩ := hx.of_deed trivial
  generalize hs₁ : s.after (.request (.write (.device request.target)) (.ok u)) = s₁ at hx
  have hstands : s₁.core.Stands p n := by
    subst hs₁
    exact ⟨hs.cursor, hs.stored⟩
  have hdevice : s₁.core.document.device = request.target := by
    subst hs₁
    rfl
  have hwritten : (Operation.request request).Attempted s.core s₁.core := by
    subst hs₁
    exact ⟨rfl, .inr ⟨request, rfl, rfl⟩, fun _ => rfl,
      fun key _ hd _ => Document.apply_touches _ (.device request.target) hd⟩
  refine Operation.Outcome.of_attempted ?_ hwritten hwritten.request_alike
  have henforced {s₂ : Bench} (h₂ : s₂.core.Stands p n) (hagree : ∀ key, key ≠ .provision →
      key ≠ .startTime → s₂.core.document.Agree s₁.core.document key) :
      (Operation.request request).Attempted s₁.core s₂.core := by
    refine .of_agree (h₂.position.trans hstands.position.symm) fun key ht => ?_
    by_cases hp : key = .provision
    · subst hp
      exact h₂.stored.trans hstands.stored.symm
    · exact hagree key hp ht
  rcases ends_discard_await.mp hk with ⟨t, e, rfl, rfl⟩ | ⟨t, a, k, rfl, hrest⟩
  · obtain ⟨s₂, hx, h₂, hagree, ⟨⟨a, ha⟩, -⟩ | ⟨-, hserved⟩⟩ := hx.enforces hstands
    · cases ha
    obtain rfl := hx.of_nil
    exact .failed (henforced h₂ hagree) hserved
  · obtain ⟨s₂, hx, h₂, hagree, ⟨-, hvalue⟩ | ⟨⟨e, he⟩, -⟩⟩ := hx.enforces hstands
    · have hsame := henforced h₂ hagree
      have hkept : s₂.core.document.device = s₁.core.document.device :=
        hagree .device (by decide) (by decide)
      refine Operation.Outcome.of_attempted ?_ hsame hsame.request_alike
      exact success_outcome hr hkiosk h₂ (hkept.trans hdevice) (hdevice ▸ hvalue) hrest hx
    · cases he

theorem measured (hp : s.core.position ≠ .unprovisioned)
    {r : Except Fault (ProvisionState × DeviceState)} (h : Ends effective l r)
    (hx : Executes D s l s') :
    r = .ok (s.core.position, s.core.document.device) ∧
        s' = { s with core := { s.core with cursor := some s.core.position } } ∨
      (∃ e, r = .error e) ∧ s'.core.position = s.core.position ∧
        (∀ key, s'.core.document.Agree s.core.document key) ∧ ¬ ∀ d, D d → d.Served := by
  cases r with
  | error e =>
    have hmeasuring := effective_within.walk (fun _ _ => trivial) h
    obtain ⟨ht, -, hD⟩ := hx.tells (effective_direct.walk (fun _ _ => trivial) h)
    refine .inr ⟨⟨e, rfl⟩, ?_, fun key => ht.agree fun k u hmem => (hmeasuring _ hmem).elim,
      fun hall => ?_⟩
    · have hwithin := effective_within_requests.walk (fun _ _ => trivial) h
      have hspares : policy.Spares s.core s'.core := spares_of_tells ht fun d hd =>
        not_owns_of_within (by decide) (hwithin d hd)
      exact hspares.1
    · obtain ⟨a, ha⟩ := effective_served.ends h fun d hd => hall d (hD d hd)
      cases ha
  | ok a =>
    obtain ⟨q, d⟩ := a
    obtain ⟨k, rfl, hk⟩ := ends_effective h
    obtain ⟨-, hq, hx⟩ := hx.of_deed trivial
    obtain rfl : q = s.core.position := hq
    rcases hk with ⟨hq, -⟩ | ⟨-, doc, rfl, rfl⟩
    · exact absurd hq hp
    obtain ⟨-, hdoc, hx⟩ := hx.of_deed trivial
    obtain rfl : doc = s.core.document := hdoc
    exact .inl ⟨rfl, hx.of_nil⟩

theorem carryOut_outcome {config : DeviceConfig} {plan : DeviceRequest.Plan}
    {r : Except Fault DeviceState} (hr : request ≠ .clear)
    (hkiosk : s.core.position.hasKiosk = true)
    (hplan : request.plan s.core.position s.core.document.device config.lenientClear = .ok plan)
    (h : Ends (carryOut config request) l r) (hx : Executes D s l s') :
    (Operation.request request).Outcome D (request.aim s.core) s.core (r.map .device) s' := by
  have hposition : s.core.position ≠ .unprovisioned := by
    intro hp
    rw [hp] at hkiosk
    cases hkiosk
  rw [carryOut_eq] at h
  rcases ends_bind.mp h with ⟨e, he, rfl⟩ | ⟨a, i, k, rfl, hi, hk⟩
  · rcases measured hposition he hx with ⟨hr, -⟩ | ⟨-, hp, hagree, hserved⟩
    · cases hr
    · exact .failed (.of_agree hp fun key _ => hagree key) hserved
  obtain ⟨s₁, hxi, hx⟩ := hx.append_inv (effective_direct.walk (fun _ _ => trivial) hi)
  rcases measured hposition hi hxi with ⟨ha, rfl⟩ | ⟨⟨e, he⟩, -⟩
  swap
  · cases he
  obtain rfl := Except.ok.inj ha
  obtain ⟨-, rfl⟩ := (DeviceRequest.plan_eq_ok_iff hkiosk).mp hplan
  dsimp only at hk
  rw [hplan] at hk
  have hread : (Operation.request request).Attempted s.core
      { s.core with cursor := some s.core.position } := .of_agree rfl fun _ _ => .refl _ _
  refine Operation.Outcome.of_attempted ?_ hread hread.request_alike
  exact persist_outcome hr hkiosk ⟨rfl, rfl⟩ hk hx

theorem Operation.Aims.outcome {op : Operation} {a : Aim} (ha : op.Aims s.config.device s.core a)
    (h : Ends (op.program s.config) l x) (hx : Executes D s l s') : op.Outcome D a s.core x s' := by
  cases ha with
  | event hnext => exact raise_outcome hnext h hx
  | @request request plan hr hk hplan =>
    obtain ⟨t, rfl⟩ := ends_await.mp h
    have hjob : Executes D s
        (.act (.submit (Lane.requests.job request)) t :: .request (.await t) x :: []) s' := hx
    obtain ⟨k, r, s₁, hends, hk', rfl, hnil⟩ := hjob.of_job
    obtain rfl := hnil.of_nil
    obtain ⟨y, hy, hreply⟩ := DeviceRequest.ends_program hends
    rw [hreply]
    exact (carryOut_outcome hr hk hplan hy hk').settle (by decide) r

end Operations

end DeviceLock
