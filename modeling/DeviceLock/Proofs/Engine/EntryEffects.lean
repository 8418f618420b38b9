import DeviceLock.Proofs.Engine.Discipline
import DeviceLock.Proofs.Engine.Events
import DeviceLock.Proofs.Engine.ProvisionTrail
import DeviceLock.Proofs.Program.Entering

namespace DeviceLock

open Program Lane

theorem ProvisionState.Succeeds.ne_unprovisioned {p q : ProvisionState} (h : p.Succeeds q)
    (hp : p ≠ .unprovisioned) : q ≠ .unprovisioned := by
  rcases h with rfl | ⟨event, hnext⟩
  · exact hp
  · exact next_ne_unprovisioned hnext

theorem PolicyJob.program_entering (config : EngineConfig) (enforced : Option LockMode)
    (job : PolicyJob) (s : EntryRecord) :
    (job.program config enforced).Obeys .entering (fun _ _ => True) s := by
  by_cases hj : ∃ event, job = .transition event
  · obtain ⟨event, rfl⟩ := hj
    exact obeys_bind (transition_entering _ _ event s) (fun _ _ _ => trivial) fun _ _ _ => trivial
  · have hescalating : (job.program config enforced).Within .escalating :=
      PolicyJob.program_escalating config enforced fun event he => hj ⟨event, he⟩
    exact (hescalating.entering s).imp fun _ _ _ => trivial

theorem Core.Tells.started {c c' : Core} {l : List Deed} (h : c.Tells l c')
    (hc : c.document.startTime.isSome = true) : c'.document.startTime.isSome = true := by
  induction h with
  | nil c => exact hc
  | @cons c c' d l _ _ ih =>
    apply ih
    cases d with
    | act a x => cases a <;> exact hc
    | request r x =>
      cases r with
      | cursor => cases x <;> exact hc
      | write k =>
        cases x with
        | error f => exact hc
        | ok u => cases k <;> first | exact hc | rfl
      | _ => exact hc

namespace Machine

variable {P : Action → Prop} {m₀ b m m₁ m' : Machine} {now : Timestamp} {a : Action} {d : Deed}
  {l : List Deed} {s : EntryRecord}

def Enabled (m : Machine) : Prop := .called (.platform .enableSetup) .ok ∈ m.world.trace

structure Entered (m : Machine) : Prop where
  started : m.world.document.startTime.isSome = true
  enabled : m.Enabled

structure HalfEntered (m : Machine) : Prop where
  cursor : m.engine.cursor = some .unprovisioned
  stored : m.world.document.provision = .inProgress
  pending : ¬ m.Entered

structure Bears (m : Machine) (s : EntryRecord) : Prop where
  seen : ∀ p, s.seen = some p → m.engine.cursor = some p
  started : s.started = true → m.world.document.startTime.isSome = true
  enabled : s.enabled = true → m.Enabled

theorem Enabled.step (h : m.Enabled) (hs : m.step? now a = some m') : m'.Enabled := by
  obtain ⟨es, htrace, -⟩ := step_answering hs
  rw [Enabled, htrace]
  exact List.mem_append_right es h

theorem started_of_step (h : m.world.document.startTime.isSome = true)
    (hs : m.step? now a = some m') : m'.world.document.startTime.isSome = true := by
  by_cases hr : a = .restart
  · subst hr
    obtain rfl := restart_cases hs
    exact h
  · exact (step_frame hs hr).core.started h

theorem Entered.step (h : m.Entered) (hs : m.step? now a = some m') : m'.Entered where
  started := started_of_step h.started hs
  enabled := h.enabled.step hs

theorem Does.entered (h : Does m d m') (hm : m.Entered) : m'.Entered where
  started := by
    obtain ⟨hfits, he⟩ := h.core
    have htells : m.core.Tells [d] m'.core := he ▸ .cons hfits (.nil _)
    exact htells.started hm.started
  enabled := by
    rw [Enabled, h.trace]
    exact List.mem_append_right _ hm.enabled

theorem Does.bears (h : Does m d m') (hm : m.Bears s) : m'.Bears (s.next d) := by
  obtain ⟨-, he⟩ := h.core
  have hcursor : m'.engine.cursor = (d.effect m.core).cursor := congrArg Core.cursor he
  have hstart : m'.world.document.startTime = (d.effect m.core).document.startTime :=
    congrArg (fun c => c.document.startTime) he
  have hkept : m.Enabled → m'.Enabled := fun h' => by
    rw [Enabled, h.trace]
    exact List.mem_append_right _ h'
  -- Most deeds touch neither the cursor nor the start time.
  have hsame (hc : (d.effect m.core).cursor = m.engine.cursor)
      (ht : (d.effect m.core).document.startTime = m.world.document.startTime) : m'.Bears s :=
    ⟨fun p hp => (hcursor.trans hc).trans (hm.seen p hp),
      fun hs => (hstart.trans ht) ▸ hm.started hs, fun hs => hkept (hm.enabled hs)⟩
  have hmoved (p : ProvisionState) (hc : (d.effect m.core).cursor = some p)
      (ht : (d.effect m.core).document.startTime = m.world.document.startTime) :
      m'.Bears { s with seen := some p } :=
    ⟨fun q hq => (hcursor.trans hc).trans hq, fun hs => (hstart.trans ht) ▸ hm.started hs,
      fun hs => hkept (hm.enabled hs)⟩
  cases d with
  | act a x =>
    cases a with
    | moveCursor p => exact hmoved p rfl rfl
    | _ => exact hsame rfl rfl
  | request r x =>
    cases r with
    | cursor =>
      cases x with
      | error f => exact hsame rfl rfl
      | ok p => exact hmoved p rfl rfl
    | write k =>
      cases x with
      | error f => cases k <;> exact hsame rfl rfl
      | ok u =>
        cases k with
        | startTime t =>
          exact ⟨fun p hp => hcursor.trans (hm.seen p hp), fun _ => by rw [hstart]; rfl,
            fun hs => hkept (hm.enabled hs)⟩
        | _ => exact hsame rfl rfl
    | call k =>
      by_cases hk : k = .platform .enableSetup ∧ x = .ok ()
      · obtain ⟨rfl, rfl⟩ := hk
        exact ⟨fun p hp => hcursor.trans (hm.seen p hp), fun hs => hstart ▸ hm.started hs,
          fun _ => by rw [Enabled, h.trace]; exact List.mem_cons_self⟩
      · have hnext : s.next (.request (.call k) x) = s := by
          unfold EntryRecord.next
          split
          all_goals simp_all
        rw [hnext]
        exact hsame rfl rfl
    | _ => exact hsame rfl rfl

theorem Does.leaves (h : Does m d m') (hm : m.Bears s) (hd : Discipline.entering.Admits s d)
    (hp : m'.core.position ≠ .unprovisioned) : m.core.position ≠ .unprovisioned ∨ m'.Entered := by
  obtain ⟨hfits, he⟩ := h.core
  rw [he] at hp
  cases d with
  | act a x =>
    cases a with
    | moveCursor n =>
      obtain rfl | ⟨p, hseen, heffects⟩ := hd
      · exact absurd rfl hp
      by_cases hfirst : p = .unprovisioned
      · obtain ⟨hstarted, henabled⟩ := heffects hfirst
        exact .inr (h.entered ⟨hm.started hstarted, hm.enabled henabled⟩)
      · have hposition : m.core.position = p := by
          simp [Machine.core, Core.position, hm.seen p hseen]
        exact .inl (hposition ▸ hfirst)
    | _ => exact .inl hp
  | request r x =>
    cases r with
    | cursor =>
      cases x with
      | error f => exact .inl hp
      | ok p =>
        obtain rfl : p = m.core.position := hfits
        exact .inl hp
    | write k =>
      cases x with
      | error f => exact .inl hp
      | ok u =>
        cases k with
        | provision n =>
          obtain ⟨p, hseen⟩ := Option.ne_none_iff_exists'.mp (hd.1 rfl)
          have hcursor : m.core.cursor = some p := hm.seen p hseen
          left
          simpa [Deed.effect, Core.position, hcursor] using hp
        | _ => exact .inl hp
    | _ => exact .inl hp

theorem Plays.entered (h : Plays m l m') (hm : m.Entered) : m'.Entered := by
  induction h with
  | nil m => exact hm
  | cons hd _ ih => exact ih (hd.entered hm)

theorem Plays.leaves (h : Plays m l m') (hm : m.Bears s)
    (hl : Discipline.entering.Along Discipline.entering.Admits s l) :
    m'.Bears (l.foldl EntryRecord.next s) ∧
      (m'.core.position ≠ .unprovisioned → m.core.position ≠ .unprovisioned ∨ m'.Entered) := by
  induction h generalizing s with
  | nil m => exact ⟨hm, .inl⟩
  | cons hd hplays ih =>
    obtain ⟨hbears, hleaves⟩ := ih (hd.bears hm) hl.2
    refine ⟨hbears, fun hp => ?_⟩
    rcases hleaves hp with hp | hentered
    · exact (hd.leaves hm hl.1 hp).imp_right hplays.entered
    · exact .inr hentered

theorem Bears.beside (hm : m.Bears s) (husual : m.Follows .usual)
    (h : m.step? now a = some m') (ha : a.lane? ≠ some .policy) (hr : a ≠ .restart) :
    m'.Bears s where
  seen := fun p hp => (beside_spares husual h ha hr).2.2 p (hm.seen p hp)
  started := fun hs => started_of_step (hm.started hs) h
  enabled := fun hs => (hm.enabled hs).step h

def Enters (m : Machine) (s : EntryRecord) : Prop :=
  m.Bears s ∧ m.Abides .policy .entering (fun _ _ => True) s

theorem enters_of_idle (h : m.Idle .policy) : m.Enters {} :=
  ⟨⟨by simp, by simp, by simp⟩, h.abides⟩

theorem Enters.own (hm : m.Enters s) (h : m.step? now a = some m')
    (ha : a.lane? = some .policy) :
    (∃ t, m'.Enters t) ∧
      (m'.core.position ≠ .unprovisioned → m.core.position ≠ .unprovisioned ∨ m'.Entered) := by
  obtain ⟨hbears, habides⟩ := hm
  have hr : a ≠ .restart := by
    rintro rfl
    cases ha
  obtain ⟨halong, habides⟩ := habides.own h ha (fun j _ => PolicyJob.program_entering _ _ j s)
    fun r x hx => by
      cases r with
      | cursor =>
        cases x with
        | error f => trivial
        | ok p =>
          intro q hq
          have hp : p = m.core.position := log_fits hx
          simp [hp, Machine.core, Core.position, hbears.seen q hq]
      | _ => trivial
  cases step_cases h hr with
  | plays hplays hn =>
    obtain ⟨hafter, hleaves⟩ := hplays.leaves hbears halong
    refine ⟨⟨_, ⟨fun p hp => hn.cursor.trans (hafter.seen p hp), ?_, ?_⟩, habides⟩, fun hp => ?_⟩
    · rw [hn.world]
      exact hafter.started
    · rw [Enabled, hn.world]
      exact hafter.enabled
    · rw [hn.core] at hp
      refine (hleaves hp).imp_right fun h => ⟨?_, ?_⟩
      · rw [hn.world]
        exact h.started
      · rw [Enabled, hn.world]
        exact h.enabled
  | panics _ _ hl hc he hn =>
    rw [hl] at habides
    have hcore : m'.core = m.core := hn.core.trans hc
    refine ⟨⟨s, ⟨fun p hp => ?_, fun hs => started_of_step (hbears.started hs) h,
      fun hs => (hbears.enabled hs).step h⟩, habides⟩, fun hp => .inl (hcore ▸ hp)⟩
    exact (congrArg Core.cursor hcore).trans (hbears.seen p hp)
  | callbackEnds he => subst he; cases ha
  | activation he => subst he; cases ha

theorem Reachable.enters (h : m.Reachable) : ∃ s, m.Enters s := by
  obtain ⟨d, m₀, hf, hr⟩ := h
  induction hr with
  | refl => exact ⟨{}, enters_of_idle (hf.idle .policy)⟩
  | @step m m' now a hr _ hs ih =>
    have hm : m.Reachable := ⟨d, _, hf, hr⟩
    obtain ⟨s, hs'⟩ := ih
    by_cases hrestart : a = .restart
    · subst hrestart
      obtain rfl := restart_cases hs
      exact ⟨{}, enters_of_idle rfl⟩
    by_cases ha : a.lane? = some .policy
    · exact (hs'.own hs ha).1
    · exact ⟨s, hs'.1.beside hm.usual hs ha hrestart, hs'.2.beside hs hrestart ha⟩

theorem Reachable.leaves (hm : m.Reachable) (hs : m.step? now a = some m') (hr : a ≠ .restart)
    (hp : m'.core.position ≠ .unprovisioned) : m.core.position ≠ .unprovisioned ∨ m'.Entered := by
  by_cases ha : a.lane? = some .policy
  · obtain ⟨s, hs'⟩ := hm.enters
    exact (hs'.own hs ha).2 hp
  · exact .inl ((beside_spares hm.usual hs ha hr).1 ▸ hp)

theorem Reachable.startTime (hm : m.Reachable) (hs : m.step? now a = some m')
    (hp : m.core.position ≠ .unprovisioned) :
    m'.world.document.startTime = m.world.document.startTime := by
  by_cases hr : a = .restart
  · subst hr
    obtain rfl := restart_cases hs
    rfl
  have hagree : m'.world.document.Agree m.world.document .startTime := by
    apply (step_frame hs hr).core.agree
    intro k u hmem hk
    have hasked : m.asked? a = some (.write k) := asked_of_log hmem
    obtain ⟨-, next, hrun⟩ : a.lane? = some .policy ∧
        ∃ next, (m.engine.queue .policy).running = some (.wait (.write k) next) := by
      apply asked_by hm.usual hasked
      · intro other hne hother
        cases other with
        | policy => exact hne rfl
        | requests => cases hk.symm.trans hother
        | finalization =>
          obtain ⟨s, rfl, -⟩ := hother
          cases hk
      · rintro (hcaller | hcaller) <;> cases hk.symm.trans hcaller
    obtain ⟨s, hbears, habides⟩ := hm.enters
    have hseen : s.seen = some .unprovisioned := (habides _ hrun).1.2 hk
    apply hp
    simp [Machine.core, Core.position, hbears.seen _ hseen]
  exact hagree

/-- On the way from the one state to the other, the engine starts anew where the first entry is
stored and not completed. -/
structure Forgets (P : Action → Prop) (m₀ b m : Machine) : Prop where
  before : Reaches P m₀ b
  restart : P .restart
  half : b.HalfEntered
  after : Reaches P { b with engine := b.engine.renewed } m

theorem Reachable.renewed (h : m.Reachable) :
    Reachable { m with engine := m.engine.renewed } := by
  have hs : m.step? epoch .restart = some { m with engine := m.engine.renewed } := rfl
  exact h.trans (.step (P := fun _ => True) (.refl m) trivial hs)

theorem position_of_renewed (hb : b.Reachable) (hp : b.world.document.provision ≠ .unprovisioned)
    (hr : Reaches P { b with engine := b.engine.renewed } m) :
    m.core.position ≠ .unprovisioned := by
  have hb := hb.renewed
  have h₀ : Idle { b with engine := b.engine.renewed } .policy ∧
      (core { b with engine := b.engine.renewed }).position ≠ .unprovisioned := ⟨rfl, hp⟩
  refine hr.of_works (I := fun m => m.core.position ≠ .unprovisioned) h₀ ?_ ?_ ?_
  · exact fun m hm hp _ => (hb.trans hm).near.ne_unprovisioned hp
  · intro m now a m' hm hp _ ha hr hs
    rwa [(beside_spares (hb.trans hm).usual hs ha hr).1]
  · intro b' l m hb' hp hw
    obtain ⟨j, -, hspan⟩ := hw.span (hb.trans hb').usual
    exact hspan.succeeds.ne_unprovisioned hp

theorem HalfEntered.lasts (hb : b.Reachable) (h : b.HalfEntered)
    (hr : Reaches P { b with engine := b.engine.renewed } m) :
    m.core.position ≠ .unprovisioned ∧
      m.world.document.startTime = b.world.document.startTime := by
  have hp : b.world.document.provision ≠ .unprovisioned := by simp [h.stored]
  refine ⟨position_of_renewed hb hp hr, ?_⟩
  induction hr with
  | refl => rfl
  | step hr _ hs ih =>
    exact ((hb.renewed.trans hr).startTime hs (position_of_renewed hb hp hr)).trans ih

theorem Reachable.halfEntered (hm : m.Reachable) (hp : m.core.position = .unprovisioned)
    (hs : m.world.document.provision ≠ .unprovisioned) (he : ¬ m.Entered) : m.HalfEntered where
  cursor := by
    cases hcursor : m.engine.cursor with
    | none => exact absurd (by simpa [Machine.core, Core.position, hcursor] using hp) hs
    | some p =>
      obtain rfl : p = .unprovisioned := by
        simpa [Machine.core, Core.position, hcursor] using hp
      rfl
  stored := by
    have hnear := hm.near
    rw [hp] at hnear
    rcases hnear with hsame | ⟨event, hnext⟩
    · exact absurd hsame hs
    · exact (ProvisionState.eq_of_next_unprovisioned hnext).2
  pending := he

theorem entered_or_forgets (hf : Fresh {} m₀) (h : Reaches P m₀ m)
    (hp : m.core.position ≠ .unprovisioned) : m.Entered ∨ ∃ b, Forgets P m₀ b m := by
  induction h with
  | refl =>
    obtain ⟨he, hd⟩ := hf.engine
    have hcursor : m₀.engine.cursor = none := by rw [he]
    exact absurd (by simp [Machine.core, Core.position, hcursor, hd]) hp
  | @step m m' now a h ha hs ih =>
    have hm : m.Reachable := ⟨{}, m₀, hf, h.mono fun _ _ => trivial⟩
    have hgoes (hp : m.core.position ≠ .unprovisioned) :
        m'.Entered ∨ ∃ b, Forgets P m₀ b m' := by
      rcases ih hp with hentered | ⟨b, hb⟩
      · exact .inl (hentered.step hs)
      · exact .inr ⟨b, { hb with after := hb.after.step ha hs }⟩
    by_cases hr : a = .restart
    · subst hr
      by_cases hunprovisioned : m.core.position = .unprovisioned
      · obtain rfl := restart_cases hs
        by_cases hentered : m.Entered
        · exact .inl ⟨hentered.started, hentered.enabled⟩
        · exact .inr ⟨m, h, ha, hm.halfEntered hunprovisioned hp hentered, .refl _⟩
      · exact hgoes hunprovisioned
    · rcases hm.leaves hs hr hp with hp | hentered
      · exact hgoes hp
      · exact .inl hentered

/-- An engine whose cursor has left the unprovisioned state has achieved both effects of the first
entry, unless it was started anew when the entry had been stored, but not completed. Then the start
time stays as it was left, and the component may be enabled by a later transition only. -/
theorem entry_effects (hf : Fresh {} m₀) (h : Reaches P m₀ m) :
    (¬ P .restart → m.core.position ≠ .unprovisioned → m.Entered) ∧
      (m.core.position ≠ .unprovisioned ∧ ¬ m.Entered ↔
        ∃ b, Forgets P m₀ b m ∧ (b.world.document.startTime = none ∨ ¬ m.Enabled)) := by
  have hlasts {b : Machine} (hb : Forgets P m₀ b m) : m.core.position ≠ .unprovisioned ∧
      m.world.document.startTime = b.world.document.startTime :=
    hb.half.lasts ⟨{}, m₀, hf, hb.before.mono fun _ _ => trivial⟩ hb.after
  refine ⟨fun hP hp => ?_, ?_, ?_⟩
  · rcases entered_or_forgets hf h hp with hentered | ⟨b, hb⟩
    · exact hentered
    · exact absurd hb.restart hP
  · rintro ⟨hp, hentered⟩
    obtain ⟨b, hb⟩ := (entered_or_forgets hf h hp).resolve_left hentered
    refine ⟨b, hb, ?_⟩
    by_cases henabled : m.Enabled
    · left
      apply Option.not_isSome_iff_eq_none.mp
      intro hstarted
      rw [← (hlasts hb).2] at hstarted
      exact hentered ⟨hstarted, henabled⟩
    · exact .inr henabled
  · rintro ⟨b, hb, heffect⟩
    obtain ⟨hp, hstart⟩ := hlasts hb
    refine ⟨hp, fun hentered => ?_⟩
    rcases heffect with hnone | hdisabled
    · have hstarted := hentered.started
      rw [hstart, hnone] at hstarted
      cases hstarted
    · exact hdisabled hentered.enabled

def forgetful : List Action :=
  [.call (.event .ready), .start .policy] ++ Action.goesOn .policy 2 ++
    [.resume (.job .policy) { store := .refused .io }, .resume (.client 0) {}, .restart,
      .call .provisionState, .resume (.client 0) {}]

theorem exists_forgetful :
    ∃ m, Reaches (fun _ => True) (plain []) m ∧ m.Quiescent ∧
      m.engine.cursor = some .inProgress ∧ m.world.document.startTime = none ∧ ¬ m.Enabled := by
  have hrun : ((plain []).run? epoch forgetful).any (fun m => m.quiet &&
      decide (m.engine.cursor = some .inProgress) && m.world.document.startTime.isNone &&
        decide (.called (.platform .enableSetup) .ok ∉ m.world.trace)) = true := rfl
  obtain ⟨m, hm, hends⟩ := (Option.any_eq_true _ _).mp hrun
  simp only [Bool.and_eq_true, decide_eq_true_eq, Option.isNone_iff_eq_none] at hends
  obtain ⟨⟨⟨hquiet, hcursor⟩, hstart⟩, hdisabled⟩ := hends
  exact ⟨m, (Reaches.refl _).run (fun _ _ => trivial) hm, quiescent_of_quiet hquiet, hcursor,
    hstart, hdisabled⟩

theorem entry_effects_forgotten :
    ∃ m b, Reaches (fun _ => True) (plain []) m ∧ m.Quiescent ∧
      m.core.position = .inProgress ∧ ¬ m.Entered ∧ Forgets (fun _ => True) (plain []) b m := by
  obtain ⟨m, hr, hquiescent, hcursor, hstart, hdisabled⟩ := exists_forgetful
  have hposition : m.core.position = .inProgress := by
    simp [Machine.core, Core.position, hcursor]
  have hentered : ¬ m.Entered := fun h => hdisabled h.enabled
  obtain ⟨b, hb, -⟩ :=
    (entry_effects (plain_fresh []) hr).2.mp ⟨by rw [hposition]; decide, hentered⟩
  exact ⟨m, b, hr, hquiescent, hposition, hentered, hb⟩

theorem unentered_after_restart :
    ∃ m, Reaches (fun _ => True) (plain []) m ∧ m.Quiescent ∧
      m.core.position ≠ .unprovisioned ∧ ¬ m.Entered := by
  obtain ⟨m, hr, hquiescent, hcursor, -, hdisabled⟩ := exists_forgetful
  have hposition : m.core.position = .inProgress := by
    simp [Machine.core, Core.position, hcursor]
  exact ⟨m, hr, hquiescent, by rw [hposition]; decide, fun h => hdisabled h.enabled⟩

end Machine

end DeviceLock
