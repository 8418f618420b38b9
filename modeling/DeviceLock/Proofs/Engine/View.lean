import DeviceLock.Proofs.Activation.Fulfilment
import DeviceLock.Proofs.Engine.Resumption
import DeviceLock.Proofs.Engine.Scheduling
import DeviceLock.Proofs.Program.Obliging
import DeviceLock.Proofs.Program.Promptness

/-!
Runs whose collaborators do as they are asked, as a policy job sees them. Its own deeds turn its
view of the machine; what all others do in the meantime lets the view drift: `WorksWith.course`.
-/

namespace DeviceLock

structure View where
  core : Core
  step : Option PolicyStep
  enforced : Bool
  jobs : List PolicyJob
  scheduler : Scheduler Nat
  shown : Option LockMode

namespace Deed

def issues : Option PolicyStep → Deed → Option PolicyStep
  | _, act (.issue _ _ step) _ => some step
  | last, _ => last

def counts : Bool → Deed → Bool
  | _, act (.count (.enforcement _)) _ => true
  | enforced, _ => enforced

def leaves : Option LockMode → Deed → Option LockMode
  | _, request (.call .exit) (.ok _) => none
  | shown, _ => shown

structure Turns (d : Deed) (v v' : View) : Prop where
  fits : d.Fits v.core
  core : v'.core = d.effect v.core
  step : v'.step = issues v.step d
  enforced : v'.enforced = counts v.enforced d
  jobs : v'.jobs = v.jobs ++ d.submitted .policy
  scheduler : d.Orders v.scheduler v'.scheduler
  shown : v'.shown = leaves v.shown d

structure Aside (d : Deed) : Prop where
  issues : ∀ last, d.issues last = last
  counts : ∀ enforced, d.counts enforced = enforced
  leaves : ∀ shown, d.leaves shown = shown
  scheduler : ∀ s s', d.Orders s s' → s' = s

end Deed

structure View.Drifts (v v' : View) : Prop where
  core : Lane.policy.Spares v.core v'.core
  step : v'.step = v.step
  enforced : v'.enforced = v.enforced
  jobs : ∃ jobs, v'.jobs = v.jobs ++ jobs ∧
    (v'.core.document.device = v.core.document.device ∨ .enforce ∈ jobs)
  screen : v.scheduler.Moves v.shown v'.scheduler v'.shown

theorem View.Drifts.grows {v v' : View} (h : v.Drifts v') : v.jobs <+: v'.jobs := by
  obtain ⟨jobs, hjobs, -⟩ := h.jobs
  exact ⟨jobs, hjobs.symm⟩

def Operation.isOrdinary : Operation → Bool
  | critical _ | schedule _ | deactivate => false
  | _ => true

def Action.Obliging : Action → Prop
  | call op => op.isOrdinary = true
  | resume task c => c.Willing ∧ (task = .job .policy → c.answer = some true)
  | callbackEnds _ _ result => result = .returned true
  | drop _ | start _ => True
  | activation _ | restart => False

instance : DecidablePred Action.Obliging
  | .call op => inferInstanceAs (Decidable (op.isOrdinary = true))
  | .resume task c =>
    inferInstanceAs (Decidable (c.Willing ∧ (task = .job .policy → c.answer = some true)))
  | .callbackEnds _ _ result => inferInstanceAs (Decidable (result = .returned true))
  | .drop _ | .start _ => inferInstanceAs (Decidable True)
  | .activation _ | .restart => inferInstanceAs (Decidable False)

def Regime.obliging : Regime where
  lane := Lane.footprint
  caller := .asking fun j => ∀ cause, j ≠ .policy (.critical cause)

theorem Deed.Aside.of_request {r : Request} (x : r.Answer) (h : r ≠ .call .exit) :
    (request r x).Aside where
  issues := fun _ => rfl
  counts := fun _ => rfl
  leaves := fun shown => by
    cases r with
    | call k =>
      cases k with
      | exit => exact absurd rfl h
      | _ => rfl
    | _ => rfl
  scheduler := fun _ _ hs => hs.of_request

theorem Deed.Aside.of_act {a : Act} (x : a.Answer) (hp : ¬ a.Presents)
    (hi : ∀ p d step, a ≠ .issue p d step) (hc : ∀ success, a ≠ .count (.enforcement success)) :
    (act a x).Aside where
  issues := fun _ => by
    cases a with
    | issue p d step => exact absurd rfl (hi p d step)
    | _ => rfl
  counts := fun _ => by
    cases a with
    | count metric =>
      cases metric with
      | enforcement success => exact absurd rfl (hc success)
      | _ => rfl
    | _ => rfl
  leaves := fun _ => rfl
  scheduler := fun s s' hs => by
    cases hs with
    | schedule now fresh id => exact absurd trivial hp
    | cancel now => exact absurd trivial hp
    | act => rfl

theorem Regime.aside_of_within {a : Action} {d : Deed} (h : d.Within (obliging.of a))
    (ha : a.lane? ≠ some .policy) : d.Aside := by
  unfold Regime.of at h
  split at h
  · rename_i lane hl
    cases lane with
    | policy => exact absurd hl ha
    | requests =>
      cases d with
      | act a x => cases a <;> first | exact h.elim | exact .of_act x id (by simp) (by simp)
      | request r x =>
        refine .of_request x fun he => ?_
        subst he
        exact h
    | finalization =>
      cases d with
      | act a x => exact h.elim
      | request r x =>
        refine .of_request x fun he => ?_
        subst he
        rcases h with h | ⟨s, h⟩ <;> cases h
  · cases d with
    | act a x => cases a <;> first | exact h.elim | exact .of_act x id (by simp) (by simp)
    | request r x =>
      refine .of_request x fun he => ?_
      subst he
      obtain ⟨s, h⟩ := h
      cases h

def Event.isEnforcement : Event → Bool
  | .counted (.enforcement _) => true
  | _ => false

namespace Machine

variable {α : Type} {m m₁ m' : Machine} {now : Timestamp} {a : Action} {d : Deed} {l : List Deed}
  {shown shown' : Option LockMode} {R : View → View → Prop}

def view (m : Machine) (shown : Option LockMode) : View where
  core := m.core
  step := (m.engine.passes.map Pass.step).getLast?
  enforced := m.world.trace.any Event.isEnforcement
  jobs := m.engine.policy.submitted
  scheduler := m.engine.scheduler
  shown := shown

/-- A step with the mode in effect before it and after it, if the activator does as it is asked. -/
inductive Obliges : Companion (Option LockMode)
  | task {shown shown₁ shown' : Option LockMode} {m m' : Machine} {now : Timestamp} {t : TaskStep}
      (ht : m.engine.scheduler.Takes shown shown₁)
      (hs : m.engine.scheduler.Serves shown₁ t shown') :
      Obliges shown m now (.activation t) m' shown'
  | other {shown shown₁ : Option LockMode} {m m' : Machine} {now : Timestamp} {a : Action}
      (ha : a.Obliging) (ht : m.engine.scheduler.Takes shown shown₁) :
      Obliges shown m now a m' ((m.log now a).foldl Deed.leaves shown₁)

theorem respond_enforced {c : Conduct} {r : Request} {x : Response r.Answer}
    (h : m.respond c r = (m', x)) :
    m'.world.trace.any Event.isEnforcement = m.world.trace.any Event.isEnforcement := by
  cases responds h <;> rfl

theorem Does.step (h : m.Does d m') :
    (m'.engine.passes.map Pass.step).getLast? =
      d.issues (m.engine.passes.map Pass.step).getLast? := by
  cases h with
  | act now a =>
    cases a with
    | submit j => cases j <;> rfl
    | issue p d s => simp [perform, record, Deed.issues]
    | _ => rfl
  | request h =>
    obtain ⟨k, hk⟩ := respond_engine h
    rw [hk]
    rfl

theorem Does.enforced (h : m.Does d m') :
    m'.world.trace.any Event.isEnforcement =
      d.counts (m.world.trace.any Event.isEnforcement) := by
  cases h with
  | act now a =>
    cases a with
    | count metric => cases metric <;> rfl
    | _ => rfl
  | request h => exact respond_enforced h

theorem Does.turns (h : m.Does d m') (shown : Option LockMode) :
    d.Turns (m.view shown) (m'.view (d.leaves shown)) where
  fits := h.core.1
  core := h.core.2
  step := h.step
  enforced := h.enforced
  jobs := congrArg JobQueue.submitted (h.queue .policy)
  scheduler := h.scheduler
  shown := rfl

theorem Plays.course (h : m.Plays l m') (shown : Option LockMode) :
    Course Deed.Turns R (m.view shown) l (m'.view (l.foldl Deed.leaves shown)) := by
  induction h generalizing shown with
  | nil => exact .nil _
  | cons hd _ ih => exact .deed (hd.turns shown) (ih _)

theorem Notes.view (h : Notes a m m') (shown : Option LockMode) :
    m'.view shown = m.view shown := by
  have hjobs : m'.engine.policy.submitted = m.engine.policy.submitted := h.submitted .policy
  simp only [Machine.view, h.core, h.world, h.passes, h.scheduler, hjobs]

theorem step_course (h : m.step? now a = some m') (ha : a.Obliging) (shown : Option LockMode) :
    Course Deed.Turns R (m.view shown) (m.log now a)
      (m'.view ((m.log now a).foldl Deed.leaves shown)) := by
  have hr : a ≠ .restart := by
    rintro rfl
    exact ha
  cases step_cases h hr with
  | plays hplays hn =>
    rw [hn.view]
    exact hplays.course shown
  | panics he hp =>
    subst he
    exact absurd ha.1.calm hp
  | callbackEnds he hp he' =>
    subst he he'
    rename_i pass capability result p
    have hsteps : (m.engine.passes.set pass
        { p with ends := p.ends.set capability (some result) }).map Pass.step =
          m.engine.passes.map Pass.step := by
      obtain ⟨hlt, rfl⟩ := List.getElem?_eq_some_iff.mp hp
      rw [List.map_set, ← List.getElem_map Pass.step (h := by simpa using hlt)]
      exact List.set_getElem_self _
    simp only [log, List.foldl_nil, view, hsteps]
    exact .nil _
  | activation he =>
    subst he
    exact ha.elim

def Applied (m : Machine) : Prop :=
  ∀ p ∈ m.engine.passes, p.ends.length = m.engine.capabilities.length ∧
    ∀ e ∈ p.ends, e = none ∨ e = some (.returned true)

theorem Applied.does (hm : m.Applied) (h : m.Does d m') :
    m'.Applied ∧ m'.engine.capabilities = m.engine.capabilities := by
  cases h with
  | act now a =>
    cases a with
    | submit j => cases j <;> exact ⟨hm, rfl⟩
    | issue p d s =>
      refine ⟨fun q hq => ?_, rfl⟩
      rcases List.mem_append.mp hq with hq | hq
      · exact hm q hq
      · obtain rfl := List.mem_singleton.mp hq
        refine ⟨by simp [perform, record], fun e he => ?_⟩
        simp only [List.mem_map] at he
        obtain ⟨_, -, rfl⟩ := he
        exact .inl rfl
    | _ => exact ⟨hm, rfl⟩
  | request h =>
    obtain ⟨k, hk⟩ := respond_engine h
    rw [Applied, hk]
    exact ⟨hm, rfl⟩

theorem Plays.applied (h : m.Plays l m') (hm : m.Applied) :
    m'.Applied ∧ m'.engine.capabilities = m.engine.capabilities := by
  induction h with
  | nil => exact ⟨hm, rfl⟩
  | cons hd _ ih =>
    obtain ⟨h₁, hc⟩ := hm.does hd
    obtain ⟨h', hc'⟩ := ih h₁
    exact ⟨h', hc'.trans hc⟩

theorem Applied.of_engine (hm : m.Applied) (hp : m'.engine.passes = m.engine.passes)
    (hc : m'.engine.capabilities = m.engine.capabilities) : m'.Applied := by
  rw [Applied, hp, hc]
  exact hm

theorem Applied.step (hm : m.Applied) (h : m.step? now a = some m')
    (ha : ∀ n k result, a = .callbackEnds n k result → result = .returned true)
    (hr : a ≠ .restart) : m'.Applied := by
  cases step_cases h hr with
  | plays hplays hn => exact (hplays.applied hm).1.of_engine hn.passes hn.capabilities
  | panics _ _ _ _ he hn =>
    exact hm.of_engine (hn.passes.trans (by rw [he])) (hn.capabilities.trans (by rw [he]))
  | callbackEnds he hp he' =>
    subst he he'
    rename_i pass capability result p
    obtain rfl := ha _ _ _ rfl
    intro q hq
    rcases List.mem_or_eq_of_mem_set hq with hq | rfl
    · exact hm q hq
    · obtain ⟨hlen, hends⟩ := hm p (List.mem_of_getElem? hp)
      refine ⟨by simpa using hlen, fun e he => ?_⟩
      rcases List.mem_or_eq_of_mem_set he with he | rfl
      · exact hends e he
      · exact .inr rfl
  | activation _ _ he =>
    subst he
    exact hm

theorem Fresh.applied {doc : Document} (h : Fresh doc m) : m.Applied := fun p hp => by
  rw [h.engine.1] at hp
  cases hp

structure Obliged (m : Machine) : Prop where
  reachable : m.Reachable
  follows : m.Follows .obliging
  jobs : ∀ cause, .critical cause ∉ m.engine.policy.submitted
  applied : m.Applied

theorem Obliges.cases (h : Obliges shown m now a m' shown') :
    (a.Obliging ∨ ∃ t, a = .activation t) ∧ a ≠ .restart := by
  cases h with
  | task ht hs => exact ⟨.inr ⟨_, rfl⟩, by simp⟩
  | other ha ht =>
    refine ⟨.inl ha, ?_⟩
    rintro rfl
    exact ha

theorem admits_obliging (m : Machine) (now : Timestamp)
    (ha : a.Obliging ∨ ∃ t, a = .activation t) : m.Admits now a .obliging where
  start := fun lane j _ _ => opening_within m lane j
  call := by
    rintro op rfl
    rcases ha with hordinary | ⟨t, ht⟩
    · have hordinary : op.isOrdinary = true := hordinary
      refine Operation.program_asking _ ?_ ?_ ?_
      · rintro _ hj cause rfl
        cases op with
        | critical c => cases hordinary
        | alarm alarm => cases alarm <;> simp [Operation.jobs] at hj
        | _ => simp [Operation.jobs] at hj
      · rintro mode rfl
        cases hordinary
      · rintro rfl
        cases hordinary
    · cases ht
  answers := answered_of_fits fun r x _ => by
    unfold Regime.of
    split
    · rename_i lane _
      cases lane <;> trivial
    · trivial

theorem Obliged.step (hm : m.Obliged) (h : m.step? now a = some m')
    (ho : Obliges shown m now a m' shown') : m'.Obliged := by
  obtain ⟨ha, hr⟩ := ho.cases
  obtain ⟨hlog, hfollows⟩ := hm.follows.step h (admits_obliging m now ha)
  have happlied (n k result) (he : a = .callbackEnds n k result) : result = .returned true := by
    subst he
    exact ha.resolve_right (by simp)
  refine ⟨hm.reachable.trans (.step (.refl m) trivial h : Reaches (fun _ => True) m m'), hfollows,
    fun cause hmem => ?_, hm.applied.step h happlied hr⟩
  rw [show m'.engine.policy.submitted = _ from (step_submitted h hr .policy).1] at hmem
  rcases List.mem_append.mp hmem with hmem | hmem
  · exact hm.jobs cause hmem
  obtain ⟨d, hd, hj⟩ := List.mem_flatMap.mp hmem
  have hwithin := hlog d hd
  cases d with
  | request r x => cases hj
  | act b x =>
    cases b with
    | submit j =>
      obtain rfl := Engine.job_of_mem_added hj
      unfold Regime.of at hwithin
      split at hwithin
      · rename_i lane _
        cases lane with
        | policy => exact hwithin
        | requests => rcases hwithin with h | h | h <;> cases h
        | finalization => exact hwithin
      · exact hwithin cause rfl
    | _ => cases hj

theorem Reachable.prompt (hm : m.Reachable) {p : Program (Unit × Except Fault Reply)}
    (hp : (m.engine.queue .requests).running = some p) : ∃ owes, p.Prompt owes := by
  obtain ⟨doc, m₀, hf, hr⟩ := hm
  obtain ⟨b, l, hb, hw⟩ := hr.works (hf.idle .requests) (not_idle_of_running hp)
  obtain ⟨j, -, hspan⟩ := hw.span (hb.usual (hf.follows _))
  exact (DeviceRequest.program_prompt _ j).walk (hspan.running hp)

theorem submits_enforce (hm : m.Reachable) (h : m.step? now a = some m') (hr : a ≠ .restart)
    (hd : m'.world.document.device ≠ m.world.document.device) :
    .enforce ∈ (m.log now a).flatMap (Deed.submitted .policy) := by
  obtain ⟨c, s, u, rfl, hmem⟩ := exists_write hm.usual h hr hd
  obtain ⟨p, m₁, progress, hp, hres, -⟩ := resume_cases h
  obtain ⟨owes, hprompt⟩ := hm.prompt hp
  simp only [log, hp] at hmem ⊢
  obtain ⟨r, next, rfl, ⟨-, hl, -⟩ | ⟨x, m₂, -, -, hl⟩⟩ := resume_after hres
  · rw [hl] at hmem
    cases hmem
  rw [hl] at hmem ⊢
  rcases List.mem_cons.mp hmem with he | hmem
  · cases he
    -- The store is answered, so the job owes an enforcement and submits it in the same step.
    have hnext := hprompt.2 (.ok u)
    cases hq : next (.ok u) with
    | done r =>
      rw [hq] at hnext
      cases hnext
    | wait r k =>
      rw [hq] at hnext
      cases hnext.1
    | act b k =>
      rw [hq] at hnext
      obtain rfl := hnext.1 rfl
      refine List.mem_flatMap.mpr ⟨_, List.mem_cons_of_mem _ List.mem_cons_self, ?_⟩
      exact List.mem_singleton_self _
  · cases deeds_acts _ _ _ _ hmem

theorem Obliged.drifts (hm : m.Obliged) (h : m.step? now a = some m')
    (ho : Obliges shown m now a m' shown') (ha : a.lane? ≠ some .policy) :
    (m.view shown).Drifts (m'.view shown') := by
  obtain ⟨hob, hr⟩ := ho.cases
  have hcore := beside_spares hm.reachable.usual h ha hr
  have hjobs : ∃ jobs, (m'.view shown').jobs = (m.view shown).jobs ++ jobs ∧
      ((m'.view shown').core.document.device = (m.view shown).core.document.device ∨
        .enforce ∈ jobs) :=
    ⟨_, (step_submitted h hr .policy).1,
      (Classical.em _).imp_right fun hd => submits_enforce hm.reachable h hr hd⟩
  cases ho with
  | task ht hs =>
    obtain ⟨s, hstep, rfl⟩ := activation_cases h
    exact ⟨hcore, rfl, rfl, hjobs, .task ht hs hstep⟩
  | other ha' ht =>
    rename_i shown₁
    have hlog := (hm.follows.step h (admits_obliging m now hob)).1
    have haside (d) (hd : d ∈ m.log now a) := Regime.aside_of_within (hlog d hd) ha
    -- The deeds of this task leave the screen and the counts as they are.
    have hsame := Course.keeps (R := fun _ _ => False)
      (I := fun v => v.step = (m.view shown₁).step ∧ v.enforced = (m.view shown₁).enforced ∧
        v.scheduler = (m.view shown₁).scheduler ∧ v.shown = (m.view shown₁).shown)
      (step_course h ha' shown₁) (fun _ _ h => h.elim)
      (fun d hd v v' hturns ⟨hstep, henforced, hscheduler, hshown⟩ => by
        obtain ⟨hi, hc, hl, hs⟩ := haside d hd
        refine ⟨?_, ?_, (hs _ _ hturns.scheduler).trans hscheduler, ?_⟩
        · rw [hturns.step, hi, hstep]
        · rw [hturns.enforced, hc, henforced]
        · rw [hturns.shown, hl, hshown])
      ⟨rfl, rfl, rfl, rfl⟩
    obtain ⟨hstep, henforced, hscheduler, hshown⟩ := hsame
    refine ⟨hcore, hstep, henforced, hjobs, ?_⟩
    rw [hscheduler, hshown]
    exact .takes ht

theorem takes_drifts (ht : m.engine.scheduler.Takes shown shown') :
    (m.view shown).Drifts (m.view shown') where
  core := Lane.Spares.refl .policy _
  step := rfl
  enforced := rfl
  jobs := ⟨[], (List.append_nil _).symm, .inl rfl⟩
  screen := .takes ht

theorem join_served {n : Nat} {c : Conduct} {x : (Request.join n).Answer}
    (hm : ∀ p, m.engine.passes[n]? = some p →
      ∀ e ∈ p.ends, e = none ∨ e = some (.returned true))
    (h : m.respond c (.join n) = (m', .answer x)) : (Deed.request (.join n) x).Served := by
  cases responds h with
  | joined hends =>
    simp only [Engine.ends?, bind, Option.bind_eq_some_iff, pure, Option.some.injEq] at hends
    obtain ⟨p, hp, xs, hxs, rfl⟩ := hends
    intro e he
    have hmem : some e.2 ∈ p.ends := by
      rw [eq_map_of_mapM hxs]
      exact List.mem_map_of_mem (List.of_mem_zip he).2
    rcases hm p hp _ hmem with h | h
    · cases h
    · exact Option.some.inj h

theorem served_of_granted {r : Request} {x : r.Answer} (h : (Deed.request r x).Granted)
    (hr : ∀ n, r ≠ .join n) : (Deed.request r x).Served := by
  cases r with
  | cursor =>
    cases x with
    | error f => exact h.elim
    | ok p => exact ⟨p, rfl⟩
  | load =>
    cases x with
    | error f => exact h.elim
    | ok d => exact ⟨d, rfl⟩
  | write k =>
    cases x with
    | error f => exact h.elim
    | ok u => exact rfl
  | call k =>
    cases x with
    | error f => exact h.elim
    | ok u => exact rfl
  | ask q => trivial
  | join n => exact absurd rfl (hr n)
  | await t => trivial

theorem respond_served (hm : m.Applied) {c : Conduct} {r : Request} {x : r.Answer}
    (hc : c.Willing) (h : m.respond c r = (m', .answer x)) : (Deed.request r x).Served := by
  by_cases hr : ∃ n, r = .join n
  · obtain ⟨n, rfl⟩ := hr
    exact join_served (fun p hp => (hm p (List.mem_of_getElem? hp)).2) h
  · exact served_of_granted (respond_granted hc h) fun n hn => hr ⟨n, hn⟩

theorem respond_obliging (hm : m.Applied) {c : Conduct} {r : Request} {x : r.Answer}
    (hc : c.Willing) (ha : c.answer = some true) (h : m.respond c r = (m', .answer x)) :
    (Deed.request r x).Obliging := by
  have hserved := respond_served hm hc h
  cases responds h with
  | told hb =>
    obtain rfl := Option.some.inj (ha.symm.trans hb)
    rfl
  | _ => exact hserved

theorem deeds_obliging (m : Machine) (now : Timestamp) (p : Program α) :
    ∀ d ∈ m.deeds now p, d.Obliging := by
  intro d hd
  have hact := deeds_acts m now p d hd
  cases d with
  | act a x => trivial
  | request r x => cases hact

theorem Applied.answered (hm : m.Applied) {c : Conduct} (hc : c.Willing)
    (ha : c.answer = some true) (p : Program α) : ∀ d ∈ m.answered now c p, d.Obliging := by
  cases p with
  | done r => simp [Machine.answered]
  | act a next => simp [Machine.answered]
  | wait r next =>
    simp only [Machine.answered]
    rcases hr : m.respond c r with ⟨m₁, _ | _ | x⟩
    · simp
    · simp
    · exact List.forall_mem_cons.mpr ⟨respond_obliging hm hc ha hr, deeds_obliging m₁ now _⟩

variable {b : Machine} {y x : Option LockMode}

theorem WorksWith.course (h : WorksWith .policy Obliges b y l m x) (hb : b.Obliged) :
    Course Deed.Turns View.Drifts (b.view y) l (m.view x) ∧ (∀ d ∈ l, d.Obliging) ∧
      m.Obliged := by
  induction h with
  | start hs hx =>
    refine ⟨?_, ?_, hb.step hs hx⟩
    · cases hx with
      | other ha ht => exact .beside (takes_drifts ht) (step_course hs ha _)
    · obtain ⟨j, hj, -⟩ := start_cases hs
      simp only [log, hj]
      exact deeds_obliging _ _ _
  | own _ hs hx ih =>
    obtain ⟨hcourse, hobliging, hm⟩ := ih
    refine ⟨?_, ?_, hm.step hs hx⟩
    · cases hx with
      | other ha ht => exact hcourse.append (.beside (takes_drifts ht) (step_course hs ha _))
    · intro d hd
      rcases List.mem_append.mp hd with hd | hd
      · exact hobliging d hd
      · obtain ⟨p, -, -, hp, -⟩ := resume_cases hs
        simp only [log, hp] at hd
        cases hx with
        | other ha ht => exact hm.applied.answered ha.1 (ha.2 rfl) p d hd
  | beside _ ha _ hs hx ih =>
    obtain ⟨hcourse, hobliging, hm⟩ := ih
    exact ⟨hcourse.then_beside (hm.drifts hs hx ha), hobliging, hm.step hs hx⟩

end Machine

end DeviceLock
