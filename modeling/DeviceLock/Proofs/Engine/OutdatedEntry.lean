import DeviceLock.Proofs.Engine.Scheduling

namespace DeviceLock

open Program

def Action.Unasked (a : Action) : Prop := ∀ mode, a ≠ .call (.schedule mode)

def Footprint.unscheduled : Footprint where
  acts a := ∀ mode, a ≠ .schedule mode
  requests _ := True

theorem Operation.program_unscheduled (config : EngineConfig) {op : Operation}
    (h : ∀ mode, op ≠ .schedule mode) : (op.program config).Within .unscheduled := by
  by_cases hd : op = .deactivate
  · subst hd
    exact within_bind (within_perform (by simp [Footprint.unscheduled])) fun _ =>
      within_bind (call_within trivial) fun _ => within_pure _
  · have hasking := program_asking (J := fun _ => True) config (fun _ _ => trivial) h hd
    apply hasking.mono
    · rintro a ha mode rfl
      exact ha
    · exact fun _ _ => trivial
    · exact fun _ _ _ => trivial

namespace Regime

def unasked : Regime where
  lane := Lane.footprint
  caller := .unscheduled

def settled : Regime where
  lane
    | .policy => .unread
    | lane => lane.footprint
  caller := .unscheduled

theorem settled_unscheduled {a : Action} {d : Deed} (h : d.Within (settled.of a))
    (other : LockMode) (id : Nat) : d ≠ .act (.schedule other) id := by
  rintro rfl
  unfold Regime.of at h
  split at h
  · rename_i lane _
    cases lane with
    | policy => exact h trivial
    | requests => exact h
    | finalization => exact h
  · exact h other rfl

theorem unasked_unscheduled {a : Action} {d : Deed} (h : d.Within (unasked.of a))
    (ha : a.lane? ≠ some .policy) (other : LockMode) (id : Nat) :
    d ≠ .act (.schedule other) id := by
  rintro rfl
  unfold Regime.of at h
  split at h
  · rename_i lane hl
    cases lane with
    | policy => exact ha hl
    | requests => exact h
    | finalization => exact h
  · exact h other rfl

end Regime

namespace Machine

variable {P : Action → Prop} {b m m₁ m' : Machine} {now : Timestamp} {a : Action}
  {l j e : List Deed} {c : Bool} {mode : LockMode}

theorem admits_unasked (m : Machine) (now : Timestamp) (ha : a.Unasked) :
    m.Admits now a .unasked where
  start := fun lane j _ _ => opening_within m lane j
  call := fun op hop => Operation.program_unscheduled _ fun mode h => ha mode (h ▸ hop)
  answers := answered_of_fits fun r x _ => by
    unfold Regime.of
    split
    · rename_i lane _
      cases lane <;> trivial
    · trivial

theorem unasked_step (h : m.step? now a = some m') (hm : m.Follows .unasked) :
    m'.Follows .unasked := by
  by_cases ha : a.Unasked
  · exact (hm.step h (admits_unasked m now ha)).2
  · obtain ⟨mode, hmode⟩ := Classical.not_forall.mp ha
    obtain rfl := Classical.not_not.mp hmode
    obtain rfl := Option.some.inj h
    refine hm.of_clients (fun lane => by cases lane <;> rfl) fun p hmem => ?_
    rcases List.mem_append.mp hmem with hmem | hmem
    · exact .inl hmem
    · cases List.mem_singleton.mp hmem

theorem Reachable.unasked (h : m.Reachable) : m.Follows .unasked := by
  obtain ⟨d, m₀, hf, hm⟩ := h
  induction hm with
  | refl => exact hf.follows _
  | step _ _ hs ih => exact unasked_step hs ih

inductive UntilPass (m : Machine) : Machine → Prop
  | refl : UntilPass m m
  | step {m₁ m' : Machine} {now : Timestamp} {a : Action} (h : UntilPass m m₁)
      (hs : m₁.step? now a = some m') (hr : a ≠ .restart) (hu : a.Unasked)
      (hl : a.lane? = some .policy → ∀ x, .request .load x ∉ m₁.log now a) : UntilPass m m'

def EntersOnly (m : Machine) (mode : LockMode) : Prop :=
  ∀ m', m.UntilPass m' → ∃ n,
    m'.engine.scheduler.entries = List.replicate n mode ++ m.engine.scheduler.entries ∧
      (n ≠ 0 → mode.isActive = true)

def Outdated (m : Machine) (mode : LockMode) : Prop :=
  ∃ w, m.engine.scheduler.slot = some w ∧ m.engine.scheduler.CanEnter w ∧ w.mode ≠ mode

theorem Outdated.not_entersOnly (h : m.Outdated mode) : ¬ m.EntersOnly mode := by
  intro hlaw
  obtain ⟨w, hw, hcan, hne⟩ := h
  obtain ⟨s, hs, hentries⟩ := Scheduler.exists_entry hw hcan epoch
  have htasks {s : Scheduler Nat} (hs : m.engine.scheduler.Tasks s) :
      ∃ m', m.UntilPass m' ∧ m'.engine.scheduler = s := by
    induction hs with
    | refl => exact ⟨m, .refl, rfl⟩
    | step hs ht ih =>
      rename_i s' now t
      obtain ⟨m₁, h₁, rfl⟩ := ih
      have hs' : m₁.step? now (.activation t) = some { m₁ with engine.scheduler := s' } := by
        simp only [step?, activationStep?, ht]
        rfl
      exact ⟨_, h₁.step hs' (by simp) (by simp [Action.Unasked]) (by simp [Action.lane?]), rfl⟩
  obtain ⟨m', hm', rfl⟩ := htasks hs
  obtain ⟨n, hn, -⟩ := hlaw m' hm'
  rw [hentries] at hn
  cases n with
  | zero => simpa using congrArg List.length hn
  | succ n => exact hne (List.cons.inj hn).1

theorem opening_settled (m : Machine) (lane : Lane) (j : lane.Work) :
    (m.opening lane j).Within (Regime.settled.lane lane) := by
  cases lane with
  | policy => exact (PolicyJob.program_presenting _ _ j).unread
  | requests => exact opening_within m .requests j
  | finalization => exact opening_within m .finalization j

theorem settled_of_pass (hb : b.Follows .usual) (hm : m.Follows .unasked)
    (hw : Works .policy P b (j ++ e) m) (he : Ends (enforce c) e (.ok mode)) :
    m.Follows .settled := by
  obtain ⟨job, -, hspan⟩ := hw.span hb
  refine ⟨fun lane p hp => ?_, hm.client⟩
  cases lane with
  | policy =>
    have hleft := (PolicyJob.program_presenting _ _ job).walk (hspan.running hp)
    -- Whatever came before the pass, it has presented its mode, and the job owes none by now.
    rw [List.foldl_append, arms_enforce he] at hleft
    exact hleft.unread
  | requests => exact hm.job .requests p hp
  | finalization => exact hm.job .finalization p hp

theorem settled_step (h : m.step? now a = some m') (hm : m.Follows .settled) (ha : a.Unasked)
    (hl : a.lane? = some .policy → ∀ x, .request .load x ∉ m.log now a) :
    (∀ d ∈ m.log now a, d.Within (Regime.settled.of a)) ∧ m'.Follows .settled := by
  refine hm.step h ⟨fun lane j _ _ => opening_settled m lane j, fun op hop => ?_, fun d hd => ?_⟩
  · exact Operation.program_unscheduled _ fun mode h => ha mode (h ▸ hop)
  · cases d with
    | act a x => trivial
    | request r x =>
      change (Regime.settled.of a).answers r x
      unfold Regime.of
      split
      · rename_i lane hlane
        cases lane with
        | policy =>
          cases r with
          | load => exact hl hlane x hd
          | _ => trivial
        | requests => trivial
        | finalization => trivial
      · trivial

theorem entersOnly_of_settled (hm : m.Follows .settled) (hs : m.engine.scheduler.Sound)
    (h : m.engine.scheduler.OnlyEnters mode) : m.EntersOnly mode := by
  intro m' hm'
  suffices hkept : m'.Follows .settled ∧ m'.engine.scheduler.Sound ∧
      m'.engine.scheduler.OnlyEnters mode ∧ ∃ n,
        m'.engine.scheduler.entries = List.replicate n mode ++ m.engine.scheduler.entries ∧
          (n ≠ 0 → mode.isActive = true) from hkept.2.2.2
  induction hm' with
  | refl => exact ⟨hm, hs, h, 0, rfl, fun h => absurd rfl h⟩
  | step _ hstep hr hu hl ih =>
    obtain ⟨hfollows, hsound, honly, n, hn, hactive⟩ := ih
    obtain ⟨hlog, hfollows'⟩ := settled_step hstep hfollows hu hl
    have hquiet other id (hmem : _ ∈ _) := Regime.settled_unscheduled (hlog _ hmem) other id rfl
    obtain ⟨honly', hentries⟩ := only_enters_step hstep hr hquiet hsound honly
    refine ⟨hfollows', sound_step hstep hsound, honly', ?_⟩
    rcases hentries with he | ⟨he, hmode⟩
    · exact ⟨n, he.trans hn, hactive⟩
    · exact ⟨n + 1, by rw [he, hn]; rfl, fun _ => hmode⟩

theorem onlyEnters_of_goes (hg : Goes .policy Action.Unasked m₁ l m) (hm : m₁.Follows .unasked)
    (hs : m₁.engine.scheduler.Sound) (hl : Scheduler.Schedules mode l)
    (hp : ∃ a x, .act a x ∈ l ∧ a.Presents) : m.engine.scheduler.OnlyEnters mode := by
  suffices hkept : m.Follows .unasked ∧ m.engine.scheduler.Sound ∧
      (Scheduler.Schedules mode l → (∃ a x, .act a x ∈ l ∧ a.Presents) →
        m.engine.scheduler.OnlyEnters mode) from hkept.2.2 hl hp
  -- A prefix of the deeds may not have presented anything yet, so both are asked for at each place.
  clear hl hp
  induction hg with
  | refl =>
    refine ⟨hm, hs, fun _ ⟨a, x, hmem, _⟩ => ?_⟩
    cases hmem
  | own hg hu hstep ih =>
    obtain ⟨hfollows, hsound, honly⟩ := ih
    refine ⟨unasked_step hstep hfollows, sound_step hstep hsound, fun hl hp => ?_⟩
    rcases step_scheduler hstep (by simp) with ⟨t, ht, -⟩ | hobeys
    · cases ht
    refine hobeys.onlyEnters hsound
      (fun o i hmem => hl o i (List.mem_append_right _ hmem)) ?_
    obtain ⟨a, x, hmem, hpresents⟩ := hp
    rcases List.mem_append.mp hmem with hmem | hmem
    · exact .inl (honly (fun o i h => hl o i (List.mem_append_left _ h)) ⟨a, x, hmem, hpresents⟩)
    · exact .inr ⟨a, x, hmem, hpresents⟩
  | beside hg hu ha hr hstep ih =>
    obtain ⟨hfollows, hsound, honly⟩ := ih
    refine ⟨unasked_step hstep hfollows, sound_step hstep hsound, fun hl hp => ?_⟩
    have hlog := (hfollows.step hstep (admits_unasked _ _ hu)).1
    have hquiet other id (hmem : _ ∈ _) := Regime.unasked_unscheduled (hlog _ hmem) ha other id rfl
    exact (only_enters_step hstep hr hquiet hsound (honly hl hp)).1

theorem presented_or_deferred (h : Ends (enforce c) e (.ok mode)) :
    (Scheduler.Schedules mode e ∧ ∃ a x, .act a x ∈ e ∧ a.Presents) ∨
      mode.isActive = true ∧ .request (.ask .userUnlocked) false ∈ e := by
  obtain ⟨p, doc, k, t, rfl, -, hpass, hpresent⟩ := ends_enforce h
  cases hpresent with
  | deferred hactive => exact .inr ⟨hactive, by simp⟩
  | left _ x =>
    refine .inl ⟨fun other id hmem => ?_, .cancel, (), by simp, trivial⟩
    cases hpass <;> simp at hmem
  | scheduled hactive id =>
    refine .inl ⟨fun other id hmem => ⟨?_, hactive⟩, .schedule mode, id, by simp, trivial⟩
    cases hpass <;> simp at hmem <;> exact hmem.1

/-- After a pass that succeeded only its mode is entered until the next one, exactly if no other
work can still enter its own. Such work is left over only by a pass with an active mode that found
the user locked. -/
theorem outdated_entry (hb : b.Reachable) (hj : Works .policy (fun _ => True) b j m₁)
    (hg : Goes .policy Action.Unasked m₁ e m) (he : Ends (enforce c) e (.ok mode)) :
    (m.EntersOnly mode ↔ ¬ m.Outdated mode) ∧
      (m.Outdated mode → mode.isActive = true ∧ .request (.ask .userUnlocked) false ∈ e) := by
  have hm₁ : m₁.Reachable := hb.trans hj.reaches
  have hm : m.Reachable := hb.trans (hj.goes hg fun _ _ => trivial).reaches
  have hsettled : m.Follows .settled :=
    settled_of_pass hb.usual hm.unasked (hj.goes hg fun _ _ => trivial) he
  have hcurrent (h : m.engine.scheduler.OnlyEnters mode) : ¬ m.Outdated mode :=
    fun ⟨w, hw, hcan, hne⟩ => hne (h w hw hcan).1
  rcases presented_or_deferred he with ⟨hl, hp⟩ | ⟨hactive, hasked⟩
  · have honly := onlyEnters_of_goes hg hm₁.unasked hm₁.sound hl hp
    refine ⟨iff_of_true ?_ (hcurrent honly), fun h => absurd h (hcurrent honly)⟩
    exact entersOnly_of_settled hsettled hm.sound honly
  · refine ⟨⟨fun h ho => ho.not_entersOnly h, fun h => ?_⟩, fun _ => ⟨hactive, hasked⟩⟩
    refine entersOnly_of_settled hsettled hm.sound fun w hw hcan => ⟨?_, hactive⟩
    exact Classical.not_not.mp fun hne => h ⟨w, hw, hcan, hne⟩

def resumes? (lane : Lane) (now : Timestamp) (m : Machine) :
    List Conduct → Option (List Deed × Machine)
  | [] => some ([], m)
  | c :: cs => do
    let (l, m') ← (← m.step? now (.resume (.job lane) c)).resumes? lane now cs
    return (m.log now (.resume (.job lane) c) ++ l, m')

theorem Goes.resumes {lane : Lane} {cs : List Conduct} {k : List Deed} (h : Goes lane P m₁ k m)
    (hP : ∀ c, P (.resume (.job lane) c)) (hr : m.resumes? lane now cs = some (l, m')) :
    Goes lane P m₁ (k ++ l) m' := by
  induction cs generalizing k m l with
  | nil =>
    cases hr
    rwa [List.append_nil]
  | cons c cs ih =>
    obtain ⟨m₂, hs, hr⟩ := Option.bind_eq_some_iff.mp hr
    obtain ⟨⟨l₂, m₃⟩, hrest, hl⟩ := Option.bind_eq_some_iff.mp hr
    cases hl
    rw [← List.append_assoc]
    exact ih (h.own (hP c) hs) hrest

def rejectedEntry : List Action :=
  [Action.call (.event .ready), .start .policy] ++ Action.goesOn .policy 8 ++
    [Action.activation .start, .activation (.rejected "busy"), .call (.event .kiosk)]

def deferral : List Conduct := [{}, {}, {}, { answer := some false }]

def beforeTransition : Machine := ((plain []).run? epoch rejectedEntry).getD (plain [])

def beforePass : Machine :=
  (beforeTransition.run? epoch ([.start .policy] ++ Action.goesOn .policy 2)).getD (plain [])

def afterPass : Machine := ((beforePass.resumes? .policy epoch deferral).getD ([], plain [])).2

def deferredPass : List Deed :=
  [.request .cursor (.ok .kioskProvisioned), .request .load (.ok beforePass.world.document),
    .act (.issue .kioskProvisioned .undefined .provisioned) 1, .request (.join 1) [],
    .act (.count (.enforcement true)) (), .request (.ask .userUnlocked) false]

theorem beforeTransition_run :
    (plain []).run? epoch rejectedEntry = some beforeTransition := rfl

theorem beforePass_run :
    beforeTransition.run? epoch ([.start .policy] ++ Action.goesOn .policy 2) =
      some beforePass := rfl

theorem afterPass_run :
    beforePass.resumes? .policy epoch deferral = some (deferredPass, afterPass) := rfl

theorem beforePass_works : ∃ j, Works .policy (fun _ => True) beforeTransition j beforePass := by
  obtain ⟨m, hs, hr⟩ := Option.bind_eq_some_iff.mp beforePass_run
  refine (Works.start trivial hs).run (fun a ha => ?_) hr
  exact ⟨trivial, _, List.eq_of_mem_replicate ha⟩

theorem beforeTransition_reachable : beforeTransition.Reachable :=
  ⟨{}, plain [], plain_fresh _,
    (Reaches.refl _).run (fun _ _ => trivial) beforeTransition_run⟩

theorem afterPass_goes : Goes .policy Action.Unasked beforePass deferredPass afterPass := by
  have hu (c : Conduct) : (Action.resume (.job .policy) c).Unasked := by
    rintro mode ⟨⟩
  exact Goes.refl.resumes hu afterPass_run

theorem afterPass_outdated : afterPass.Outdated .setupUi := ⟨_, rfl, trivial, by decide⟩

theorem deferredPass_ends : Ends (enforce false) deferredPass (.ok .setupUi) :=
  .wait _ (.wait _ (.act _ (.wait _ (.act _ (.wait _ (.stay _))))))

theorem enters_outdated :
    ∃ b j m₁ e m, b.Reachable ∧ Works .policy (fun _ => True) b j m₁ ∧
      Goes .policy Action.Unasked m₁ e m ∧ Ends (enforce false) e (.ok .setupUi) ∧
        ¬ m.EntersOnly .setupUi := by
  obtain ⟨j, hj⟩ := beforePass_works
  exact ⟨_, j, _, _, _, beforeTransition_reachable, hj, afterPass_goes, deferredPass_ends,
    afterPass_outdated.not_entersOnly⟩

theorem outdated_entry_deferred :
    ¬ afterPass.EntersOnly .setupUi ∧ LockMode.setupUi.isActive = true ∧
      .request (.ask .userUnlocked) false ∈ deferredPass := by
  obtain ⟨j, hj⟩ := beforePass_works
  obtain ⟨hiff, hdeferred⟩ :=
    outdated_entry beforeTransition_reachable hj afterPass_goes deferredPass_ends
  exact ⟨fun h => hiff.mp h afterPass_outdated, hdeferred afterPass_outdated⟩

end Machine

end DeviceLock
